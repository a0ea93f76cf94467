import Srh.Http.GatewayTrace

/-! What stands behind every call of Redis, in every interleaving: the credential, the
admissions and the policy that let it through, and the line that is left of it. -/
namespace Srh.Http.Gateway
open Srh.Lib Srh.Domain Srh.Ports Extractors

structure Called (state : AppState) (task : Task) (operation : Operation) (endpoint : Endpoint) (token : String)
    (identity : Identity) (commandCount : Nat) : Prop where
  carries : Carries task.inbound endpoint token
  deeds : task.deeds = calling token identity commandCount operation ∨
    task.deeds = calling token identity commandCount operation ++ [.release]
  entitled : ∃ request body p work, request.identity = identity ∧ p.commandCount = commandCount ∧
    work.operation = operation ∧ Entitled state request endpoint body p work
  audit : task.audit = (Audit.default.setIdentity identity).setCommand (some (label operation)) commandCount

section Called
variable {state : AppState} {calls : List Owned} {i : Nat} {inbound : Inbound} {operation : Operation}

private theorem not_mem_admission {token : String} {identity : Identity} {operation : Operation} :
    Deed.call operation ∉ admission token identity := by
  simp [admission]

private theorem not_mem_charging {token : String} {identity : Identity} {commandCount : Nat} {operation : Operation} :
    Deed.call operation ∉ charging token identity commandCount := by
  simp [charging, admission]

private theorem call_mem_calling {token : String} {identity : Identity} {commandCount : Nat} {operation sent : Operation} :
    .call operation ∈ calling token identity commandCount sent ↔ operation = sent := by
  simp [calling, charging, admission]

/-- The work of a granted plan is what the policy lets through. -/
theorem Granted.called {request : Request} {endpoint : Endpoint} {token : String} {identity : Identity} {p : Plan} {work : Work}
    {phase : Phase} {audit : Audit} {heard : List Signal} {deeds : List Deed} {held : List Guard} (hg : Granted state calls i request endpoint p)
    (hw : p.next = .work work) (hi : request.identity = identity) (hcarries : Carries inbound endpoint token)
    (haudit : audit = audited (Audit.default.setIdentity identity) p.label)
    (hdeeds : deeds = calling token identity p.commandCount work.operation ∨
      deeds = calling token identity p.commandCount work.operation ++ [.release]) :
    Called state ⟨inbound, phase, audit, heard, deeds, held⟩ work.operation endpoint token identity p.commandCount := by
  obtain ⟨body, -, rfl⟩ := hg.read
  have he := entitled_of_work hw
  refine ⟨hcarries, hdeeds, ⟨request, body, _, work, hi, rfl, rfl, he⟩, ?_⟩
  rw [haudit, he.labelled, audited]

/-- Only a task that waits for Redis has called it, and it has called it once. -/
theorem Reached.called {w : Waiting} {heard : List Signal} {audit : Audit} {deeds left : List Deed}
    (h : Reached state calls i inbound w heard audit deeds) (phase : Phase) (hleft : left = [] ∨ left = w.lease)
    (hc : .call operation ∈ deeds ++ left) (told : List Signal) (held : List Guard) :
    ∃ endpoint token identity commandCount,
      Called state ⟨inbound, phase, audit, told, deeds ++ left, held⟩ operation endpoint token identity commandCount := by
  have hc : .call operation ∈ deeds := by
    rcases List.mem_append.mp hc with hc | hc
    · exact hc
    · rcases hleft with rfl | rfl
      · cases hc
      · cases w <;> simp [Waiting.lease] at hc
  cases h with
  | checking _ _ => cases hc
  | authenticating _ => cases hc
  | reading _ => exact absurd hc not_mem_admission
  | acquiring _ _ _ _ => exact absurd hc not_mem_charging
  | calling h hr hg hw =>
    obtain rfl := call_mem_calling.mp hc
    refine ⟨_, _, _, _, hg.called hw (by rw [hr]; rfl) h rfl ?_⟩
    rcases hleft with rfl | rfl
    · exact .inl (List.append_nil _)
    · exact .inr rfl

private theorem Finished.called {phase : Phase} {heard : List Signal} {audit : Audit} {deeds : List Deed} {held : List Guard}
    (h : Finished state calls i inbound phase heard audit deeds) (hc : .call operation ∈ deeds) :
    ∃ endpoint token identity commandCount,
      Called state ⟨inbound, phase, audit, heard, deeds, held⟩ operation endpoint token identity commandCount := by
  cases h with
  | entered _ _ => cases hc
  | checked _ _ _ => cases hc
  | rejected _ _ => simp at hc
  | limited _ => simp at hc
  | unread _ _ => exact absurd hc not_mem_admission
  | overcharged _ _ _ _ _ _ => simp [admission] at hc
  | answered _ _ _ _ => exact absurd hc not_mem_charging
  | unleased _ _ _ _ => simp [charging, admission] at hc
  | finished h hr hg hw =>
    rcases List.mem_append.mp hc with hc | hc
    · obtain rfl := call_mem_calling.mp hc
      exact ⟨_, _, _, _, hg.called hw (by rw [hr]; rfl) h rfl (.inr rfl)⟩
    · cases List.mem_singleton.mp hc
  | elapsed h hw => exact h.called _ (.inr rfl) hc _ _
  | abandoned h => exact h.called _ (.inr rfl) hc _ _

theorem Traced.called {task : Task} (h : Traced state calls i task.inbound task) (hc : .call operation ∈ task.deeds) :
    ∃ endpoint token identity commandCount, Called state task operation endpoint token identity commandCount := by
  obtain ⟨inbound, phase, audit, heard, deeds, held⟩ := task
  cases phase with
  | waiting w =>
    have hr : Reached state calls i inbound w heard audit deeds := h
    obtain ⟨endpoint, token, identity, commandCount, hcalled⟩ :=
      hr.called (.waiting w) (.inl rfl) (by rwa [List.append_nil]) heard held
    rw [List.append_nil] at hcalled
    exact ⟨endpoint, token, identity, commandCount, hcalled⟩
  | answered answer => exact Finished.called h hc
  | dropped => exact Finished.called h hc

end Called

section Theorems
variable (state : AppState) (events : List Event) (s : State)

/-- In every interleaving, a call of Redis comes after the credential of the same request
was accepted, its bucket admitted both the probe and a charge of at least the commands that
are sent, and the pool of its identity was leased. There is one such call, and each of its
commands passes the policy of that identity. -/
theorem redis_calls_authorised (hrun : (machine state).run (start state) events = some s) (i : Nat) (task : Task)
    (hi : s.tasks[i]? = some task) (operation : Operation) (hc : .call operation ∈ task.deeds) :
    ∃ token identity commandCount, bearer task.inbound.authorization = some token ∧
      (task.deeds = calling token identity commandCount operation ∨
        task.deeds = calling token identity commandCount operation ++ [.release]) ∧
      operation.commands ≠ [] ∧ operation.commands.length ≤ commandCount ∧
      ∀ sent ∈ operation.commands, Acl.check state.sha256 identity sent = .ok () := by
  obtain ⟨endpoint, token, identity, commandCount, h⟩ := ((coherent_run hrun).traced i task hi).called hc
  obtain ⟨request, body, p, work, rfl, rfl, rfl, he⟩ := h.entitled
  exact ⟨token, request.identity, p.commandCount, h.carries.bearer, h.deeds, he.nonempty, he.length_le, he.checked⟩

end Theorems

theorem redis_calls_authorised_sample :
    ∃ s task token identity commandCount, (machine sampleServer).run (start sampleServer) sampleEvents = some s ∧
      s.tasks[0]? = some task ∧ bearer task.inbound.authorization = some token ∧
      (task.deeds = calling token identity commandCount sampleOperation ∨
        task.deeds = calling token identity commandCount sampleOperation ++ [.release]) := by
  obtain ⟨s, task, hrun, hi, -, hc⟩ := sample_served
  obtain ⟨token, identity, commandCount, hbearer, hdeeds, -⟩ :=
    redis_calls_authorised sampleServer sampleEvents s hrun 0 task hi sampleOperation hc
  exact ⟨s, task, token, identity, commandCount, hrun, hi, hbearer, hdeeds⟩

def Phase.answer? : Phase → Option Answer
  | answered a => some a
  | _ => none

def Task.line (task : Task) : Option AuditLine :=
  task.phase.answer?.bind fun answer => record (endpointLabel task.inbound.path) task.audit answer.status

/-- The endpoints of the API have their paths for labels, and are no probes. -/
theorem endpointLabel_api {path : String} {endpoint : Endpoint} (h : route path = .api endpoint) :
    endpointLabel path = path ∧ isProbe path = false := by
  revert h
  rw [route.eq_def]
  split
  · exact fun _ => by decide
  · exact fun _ => by decide
  · exact fun _ => by decide
  all_goals rintro ⟨⟩

def callLine (inbound : Inbound) (identity : Identity) (operation : Operation) (commandCount : Nat) (answer : Answer) :
    AuditLine where
  subject := identity.subject
  pool := identity.pool
  command := (CommandLabel.uppercase (label operation)).asStr
  status := answer.status
  pipelineLen := commandCount
  endpoint := inbound.path

/-- In every interleaving, a request that has called Redis leaves a line if and only if it
is answered. The line names the subject and the pool of the identity behind the credential,
the operation, and as many commands as were charged. A name whose bytes fit the label is
shown in full. -/
theorem redis_calls_audited (state : AppState) (events : List Event) (s : State)
    (hrun : (machine state).run (start state) events = some s) (i : Nat) (task : Task)
    (hi : s.tasks[i]? = some task) (operation : Operation) (hc : .call operation ∈ task.deeds) :
    ∃ token identity commandCount, .authenticate token (.ok (some identity)) ∈ task.deeds ∧
      .charge identity.bucketKey commandCount (.ok ()) ∈ task.deeds ∧
      task.line = task.phase.answer?.map (callLine task.inbound identity operation commandCount) ∧
      ((Convert.utf8Bytes (label operation)).length ≤ commandLabelCapacity →
        ∀ line ∈ task.line, line.command = Ascii.toUppercase (label operation)) := by
  obtain ⟨endpoint, token, identity, commandCount, h⟩ := ((coherent_run hrun).traced i task hi).called hc
  have hmem : ∀ deed ∈ charging token identity commandCount, deed ∈ task.deeds := by
    intro deed hd
    rcases h.deeds with hdeeds | hdeeds <;> rw [hdeeds, calling] <;> simp [hd]
  have hline : task.line = task.phase.answer?.map (callLine task.inbound identity operation commandCount) := by
    obtain ⟨hlabel, hprobe⟩ := endpointLabel_api h.carries.route
    rw [Task.line, h.audit, hlabel]
    cases task.phase.answer? with
    | none => rfl
    | some answer =>
      rw [Option.bind_some, record, hprobe, if_neg (by simp), Option.map_some]
      rfl
  refine ⟨token, identity, commandCount, hmem _ (by simp [charging, admission]), hmem _ (by simp [charging]), hline, ?_⟩
  intro hlen line hl
  rw [hline] at hl
  obtain ⟨answer, -, rfl⟩ := Option.map_eq_some_iff.mp hl
  exact CommandLabel.asStr_uppercase hlen

theorem redis_calls_audited_sample :
    ∃ s task, (machine sampleServer).run (start sampleServer) sampleEvents = some s ∧ s.tasks[0]? = some task ∧
      ∀ line ∈ task.line, line.command = "GET" := by
  obtain ⟨s, task, hrun, hi, -, hc⟩ := sample_served
  obtain ⟨token, identity, commandCount, -, -, -, hname⟩ :=
    redis_calls_audited sampleServer sampleEvents s hrun 0 task hi sampleOperation hc
  exact ⟨s, task, hrun, hi, hname (by decide)⟩

end Srh.Http.Gateway
