import Srh.Adapters.FredTransaction
import Srh.Adapters.PoolManager
import Srh.Domain.ResponseBudget

/-! The replies of a healthy RESP2 server: what fred_frame_to_resp makes of any tree
of frames, and that the circuit breaker never counts it as a failure. -/
namespace Srh.Adapters.FredExecutor
open Srh.Lib Srh.Domain Srh.Ports

mutual

/-- The frames of RESP2, whose simple strings are UTF-8. -/
def Resp2 : Resp3Frame → Prop
  | .simpleString data => Utf8.fromUtf8 data ≠ none
  | .blobString _ => True
  | .number _ => True
  | .null => True
  | .array data => Resp2Items data
  | .simpleError _ => True
  | .blobError _ => True
  | _ => False

def Resp2Items : List Resp3Frame → Prop
  | [] => True
  | frame :: data => Resp2 frame ∧ Resp2Items data

end

mutual

def frameDepth : Resp3Frame → Nat
  | .array data => frameDepthItems data + 1
  | _ => 1

def frameDepthItems : List Resp3Frame → Nat
  | [] => 0
  | frame :: data => max (frameDepth frame) (frameDepthItems data)

end

mutual

def errorFree : Resp3Frame → Bool
  | .array data => errorFreeItems data
  | .simpleError _ => false
  | .blobError _ => false
  | _ => true

def errorFreeItems : List Resp3Frame → Bool
  | [] => true
  | frame :: data => errorFree frame && errorFreeItems data

end

mutual

def Mirrors : Resp3Frame → RespValue → Prop
  | .simpleString data, .simple value => Utf8.fromUtf8 data = some value
  | .blobString data, .bulk value => data = value
  | .number data, .int value => data = value
  | .null, .nil => True
  | .array data, .array values => MirrorsItems data values
  | _, _ => False

def MirrorsItems : List Resp3Frame → List RespValue → Prop
  | [], [] => True
  | frame :: data, value :: values => Mirrors frame value ∧ MirrorsItems data values
  | _, _ => False

end

mutual

def preorder (depth : Nat) : Resp3Frame → List (Nat × Resp3Frame)
  | .array data => (depth, .array data) :: preorderItems (depth + 1) data
  | frame => [(depth, frame)]

def preorderItems (depth : Nat) : List Resp3Frame → List (Nat × Resp3Frame)
  | [] => []
  | frame :: data => preorder depth frame ++ preorderItems depth data

end

def frameError : Resp3Frame → Option ExecError
  | .simpleError data => some (.redis data)
  | .blobError data => some (.redis (Utf8.fromUtf8Lossy data))
  | _ => none

/-- The error of a node that is too deep or is an error itself. -/
def offence (node : Nat × Resp3Frame) : Option ExecError :=
  if Convert.maxDepth < node.1 then some .responseTooLarge else frameError node.2

/-- What the conversion of a tree found: a mirror of it, or its first offence. -/
def Converts (frame : Resp3Frame) (nodes : List (Nat × Resp3Frame)) : CommandResult → Prop
  | .ok value => Mirrors frame value ∧ nodes.findSome? offence = none
  | .error e => nodes.findSome? offence = some e

def ConvertsItems (data : List Resp3Frame) (nodes : List (Nat × Resp3Frame)) : Except ExecError (List RespValue) → Prop
  | .ok values => MirrorsItems data values ∧ nodes.findSome? offence = none
  | .error e => nodes.findSome? offence = some e

section Conversion

private theorem convertsItems {convert : Resp3Frame → CommandResult} {depth : Nat}
    (h : ∀ frame, Resp2 frame → Converts frame (preorder depth frame) (convert frame)) (data : List Resp3Frame)
    (hd : Resp2Items data) : ConvertsItems data (preorderItems depth data) (data.mapM convert) := by
  induction data with
  | nil => exact ⟨trivial, rfl⟩
  | cons frame data ih =>
    have hframe := h frame hd.1
    have hdata := ih hd.2
    rw [List.mapM_cons, preorderItems]
    cases hc : convert frame with
    | error e =>
      rw [hc] at hframe
      change (preorder depth frame ++ preorderItems depth data).findSome? offence = some e
      rw [List.findSome?_append, show (preorder depth frame).findSome? offence = some e from hframe]
      rfl
    | ok value =>
      rw [hc] at hframe
      obtain ⟨hmirrors, hnone⟩ := hframe
      cases hm : data.mapM convert with
      | error e =>
        rw [hm] at hdata
        change (preorder depth frame ++ preorderItems depth data).findSome? offence = some e
        rw [List.findSome?_append, hnone]
        exact hdata
      | ok values =>
        rw [hm] at hdata
        refine ⟨⟨hmirrors, hdata.1⟩, ?_⟩
        rw [List.findSome?_append, hnone]
        exact hdata.2

/-- The two counters: what remains and the depth of the node add up. -/
theorem frameWithinDepth_converts {depthRemaining depth : Nat} (hsum : depthRemaining + depth = Convert.maxDepth + 1)
    (frame : Resp3Frame) (h : Resp2 frame) :
    Converts frame (preorder depth frame) (frameWithinDepth depthRemaining frame) := by
  induction depthRemaining generalizing depth frame with
  | zero =>
    have hdeep : offence (depth, frame) = some .responseTooLarge := if_pos (by omega)
    have hhead : (preorder depth frame).findSome? offence = some .responseTooLarge := by
      cases frame <;> simp only [preorder, List.findSome?_cons, hdeep]
    exact hhead
  | succ depthRemaining ih =>
    have hhere : ∀ frame, offence (depth, frame) = frameError frame := fun frame => if_neg (by omega)
    have hscalar : ∀ {frame : Resp3Frame}, preorder depth frame = [(depth, frame)] →
        (preorder depth frame).findSome? offence = frameError frame := by
      intro frame hf
      rw [hf, List.findSome?_singleton, hhere]
    cases frame with
    | simpleString data =>
      rw [frameWithinDepth]
      cases hu : Utf8.fromUtf8 data with
      | none => exact absurd hu h
      | some value => exact ⟨hu, hscalar rfl⟩
    | blobString data => exact ⟨rfl, hscalar rfl⟩
    | number data => exact ⟨rfl, hscalar rfl⟩
    | null => exact ⟨trivial, hscalar rfl⟩
    | array data =>
      have hitems : ConvertsItems data (preorderItems (depth + 1) data) (data.mapM (frameWithinDepth depthRemaining)) :=
        convertsItems (fun frame hf => ih (by omega) frame hf) data h
      have hnode : (preorder depth (.array data)).findSome? offence = (preorderItems (depth + 1) data).findSome? offence := by
        rw [preorder, List.findSome?_cons, hhere]
        rfl
      rw [frameWithinDepth]
      cases hm : data.mapM (frameWithinDepth depthRemaining) with
      | error e =>
        rw [hm] at hitems
        exact hnode.trans hitems
      | ok values =>
        rw [hm] at hitems
        exact ⟨hitems.1, hnode.trans hitems.2⟩
    | simpleError data => exact hscalar rfl
    | blobError data => exact hscalar rfl
    | _ => exact h.elim

private theorem leaf_clean {depth : Nat} {frame : Resp3Frame} (hf : preorder depth frame = [(depth, frame)]) :
    (preorder depth frame).findSome? offence = none ↔ frameError frame = none ∧ depth + 1 ≤ Convert.maxDepth + 1 := by
  rw [hf, List.findSome?_singleton, offence]
  split
  · rename_i hd
    exact ⟨nofun, fun h => absurd h.2 (by omega)⟩
  · rename_i hd
    exact ⟨fun h => ⟨h, by omega⟩, fun h => h.1⟩

mutual

/-- A tree without offences has neither errors nor too much depth. -/
theorem preorder_clean (depth : Nat) : ∀ frame,
    (preorder depth frame).findSome? offence = none ↔
      errorFree frame = true ∧ depth + frameDepth frame ≤ Convert.maxDepth + 1
  | .array data => by
    have hitems := preorderItems_clean (depth + 1) data
    rw [preorder, List.findSome?_cons, errorFree, frameDepth, offence]
    by_cases hd : Convert.maxDepth < depth
    · rw [if_pos hd]
      exact ⟨nofun, fun h => absurd h.2 (by omega)⟩
    · rw [if_neg hd]
      refine hitems.trans (and_congr_right fun _ => ?_)
      have hle : depth + (frameDepthItems data + 1) ≤ Convert.maxDepth + 1 ↔ frameDepthItems data ≤ Convert.maxDepth - depth := by
        omega
      rw [hle, greatest_le rfl (fun _ _ => frameDepthItems.eq_2 ..) data]
      exact forall₂_congr fun frame _ => by omega
  | .simpleError _ => (leaf_clean rfl).trans (and_congr_left' (by simp [frameError, errorFree]))
  | .blobError _ => (leaf_clean rfl).trans (and_congr_left' (by simp [frameError, errorFree]))
  | .simpleString _ | .blobString _ | .number _ | .null | .boolean | .double | .bigNumber | .verbatimString | .map | .set
  | .push | .hello | .chunkedString => (leaf_clean rfl).trans (and_congr_left' (by simp [frameError, errorFree]))

theorem preorderItems_clean (depth : Nat) : ∀ data,
    (preorderItems depth data).findSome? offence = none ↔
      errorFreeItems data = true ∧ ∀ frame ∈ data, depth + frameDepth frame ≤ Convert.maxDepth + 1
  | [] => by simp [preorderItems, errorFreeItems]
  | frame :: data => by
    rw [preorderItems, List.findSome?_append, Option.or_eq_none_iff, preorder_clean depth frame, preorderItems_clean depth data,
      errorFreeItems, Bool.and_eq_true, List.forall_mem_cons]
    exact and_and_and_comm

end

mutual

/-- A mirror is as deep as its frame. -/
theorem Mirrors.depth : ∀ {frame : Resp3Frame} {value : RespValue}, Mirrors frame value → Convert.depth value = frameDepth frame
  | .simpleString _, .simple _, _ => rfl
  | .blobString _, .bulk _, _ => rfl
  | .number _, .int _, _ => rfl
  | .null, .nil, _ => rfl
  | .array data, .array values, h => by
    rw [Convert.depth, frameDepth, MirrorsItems.depth h]

theorem MirrorsItems.depth : ∀ {data : List Resp3Frame} {values : List RespValue}, MirrorsItems data values →
    Convert.depthItems values = frameDepthItems data
  | [], [], _ => rfl
  | frame :: data, value :: values, h => by
    rw [Convert.depthItems, frameDepthItems, Mirrors.depth h.1, MirrorsItems.depth h.2]

end

end Conversion

section Recording
open FredTransaction PoolManager

def errorsIn (results : List CommandResult) : List ExecError :=
  results.filterMap fun
    | .ok _ => none
    | .error e => some e

def executeFailed (result : CommandResult) : Bool := (errorsIn [result]).any countsAsFailure

def pipelineFailed (results : List CommandResult) : Bool := (errorsIn results).any countsAsFailure

def transactionFailed : BatchResult → Bool
  | .ok slots => (errorsIn slots).any countsAsFailure
  | .error e => [e].any countsAsFailure

private theorem frameError_kind {frame : Resp3Frame} {e : ExecError} (h : frameError frame = some e) : ∃ message, e = .redis message := by
  cases frame <;> cases h <;> exact ⟨_, rfl⟩

/-- An offence is an error of Redis or a reply too deep. -/
theorem offence_kind {nodes : List (Nat × Resp3Frame)} {e : ExecError} (h : nodes.findSome? offence = some e) :
    (∃ message, e = .redis message) ∨ e = .responseTooLarge := by
  obtain ⟨node, -, hnode⟩ := List.exists_of_findSome?_eq_some h
  rw [offence] at hnode
  split at hnode
  · exact .inr (Option.some.inj hnode).symm
  · exact .inl (frameError_kind hnode)

private theorem fredFrameToResp_converts {frame : Resp3Frame} (h : Resp2 frame) :
    Converts frame (preorder 1 frame) (fredFrameToResp frame) := frameWithinDepth_converts rfl frame h

private theorem executeFailed_reply {frame : Resp3Frame} (h : Resp2 frame) : executeFailed (fredFrameToResp frame) = false := by
  have hc := fredFrameToResp_converts h
  cases hr : fredFrameToResp frame with
  | ok value => rfl
  | error e =>
    rw [hr] at hc
    obtain ⟨message, rfl⟩ | rfl := offence_kind hc <;> rfl

/-- A result that is no failure does not decide a batch. -/
theorem pipelineFailed_insert {result : CommandResult} (h : executeFailed result = false) (before after : List CommandResult) :
    pipelineFailed (before ++ result :: after) = pipelineFailed (before ++ after) := by
  have hcons : result :: after = [result] ++ after := rfl
  rw [executeFailed, errorsIn] at h
  rw [pipelineFailed, pipelineFailed, errorsIn, errorsIn, hcons]
  simp only [List.filterMap_append, List.any_append, h, Bool.false_or]

/-- Any tree of RESP2 frames becomes a value, an error of Redis or a reply too deep,
which no breaker counts wherever it arrives: a value of the same shape exactly when
there is no error in it and it is not too deep, and else the first offence in
pre-order. The budget accepts every such value that it can pay for. -/
theorem resp2_reply_never_fails (frame : Resp3Frame) (h : Resp2 frame) :
    (∀ e, fredFrameToResp frame = .error e → (∃ message, e = .redis message) ∨ e = .responseTooLarge) ∧
    executeFailed (received (.ok frame)) = false ∧
    (∀ before after, pipelineFailed (before ++ received (.ok frame) :: after) = pipelineFailed (before ++ after)) ∧
    (∀ before after, transactionFailed (execResult (.ok (.array (before ++ frame :: after)))) =
      transactionFailed (execResult (.ok (.array (before ++ after))))) ∧
    ((∃ value, fredFrameToResp frame = .ok value) ↔ errorFree frame ∧ frameDepth frame ≤ Convert.maxDepth) ∧
    (∀ value, fredFrameToResp frame = .ok value → Mirrors frame value) ∧
    (∀ e, fredFrameToResp frame = .error e → (preorder 1 frame).findSome? offence = some e) ∧
    ∀ value encoding budget, fredFrameToResp frame = .ok value → budget < 2 ^ 64 → Convert.cost encoding value ≤ budget →
      ∃ rest, Convert.chargeResponseBudget value encoding budget = .ok rest := by
  have hc := fredFrameToResp_converts h
  have hclean := preorder_clean 1 frame
  have hok : ∀ {value}, fredFrameToResp frame = .ok value → Mirrors frame value ∧ (preorder 1 frame).findSome? offence = none := by
    intro value hr
    rwa [hr] at hc
  have herror : ∀ {e}, fredFrameToResp frame = .error e → (preorder 1 frame).findSome? offence = some e := by
    intro e hr
    rwa [hr] at hc
  refine ⟨fun e he => offence_kind (herror he), executeFailed_reply h, ?_, ?_, ?_, fun value hr => (hok hr).1, ?_, ?_⟩
  · exact pipelineFailed_insert (executeFailed_reply h)
  · intro before after
    change pipelineFailed ((before ++ frame :: after).map fredFrameToResp) = pipelineFailed ((before ++ after).map fredFrameToResp)
    rw [List.map_append, List.map_cons, List.map_append]
    exact pipelineFailed_insert (executeFailed_reply h) _ _
  · constructor
    · rintro ⟨value, hr⟩
      obtain ⟨hfree, hdepth⟩ := hclean.mp (hok hr).2
      exact ⟨hfree, by omega⟩
    · rintro ⟨hfree, hdepth⟩
      cases hr : fredFrameToResp frame with
      | ok value => exact ⟨value, rfl⟩
      | error e =>
        have hnone := hclean.mpr ⟨hfree, by omega⟩
        cases (herror hr).symm.trans hnone
  · exact fun e hr => herror hr
  · intro value encoding budget hr hb hcost
    obtain ⟨hmirrors, hnone⟩ := hok hr
    have hdepth : Convert.depth value ≤ Convert.maxDepth := by
      rw [hmirrors.depth]
      have := (hclean.mp hnone).2
      omega
    exact ⟨budget - Convert.cost encoding value,
      ((Convert.chargeWithinDepth_spends encoding Convert.maxDepth value).eq_ok hb).mpr ⟨hdepth, Nat.sub_add_cancel hcost⟩⟩

def nestedError : Resp3Frame := .array [.number 1, .array [.simpleError "ERR first"], .simpleError "ERR second"]

theorem resp2_reply_never_fails_nested :
    fredFrameToResp nestedError = .error (.redis "ERR first") ∧ executeFailed (received (.ok nestedError)) = false ∧
      (preorder 1 nestedError).findSome? offence = some (.redis "ERR first") := by
  have h : Resp2 nestedError := ⟨trivial, ⟨trivial, trivial⟩, trivial, trivial⟩
  obtain ⟨-, hsingle, -, -, -, -, hfirst, -⟩ := resp2_reply_never_fails nestedError h
  exact ⟨rfl, hsingle, hfirst _ rfl⟩

end Recording
end Srh.Adapters.FredExecutor
