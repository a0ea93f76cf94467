import Srh.Lib.Machine
import Srh.Domain.RateLimitReference

/-! Threads sharing one limiter. Each call reads the clock before it takes the
lock, so critical sections may run in another order than their readings. -/
namespace Srh.Domain.RateLimit
open Srh.Lib

/-- A clock, the calls that have read it but not yet run, the shared state, and
the critical sections executed so far with what they returned. -/
structure World (K : Type) where
  clock : Nat
  pending : FiniteMap Nat (Timed K)
  state : State K
  log : List (Timed K × Reply)

inductive Event (K : Type) where
  | tick (nanos : Nat)
  | read (thread : Nat) (call : Call K)
  | enter (thread : Nat)

def Call.readsClock {K : Type} : Call K → Bool
  | .takeDebtForgivenEvictions => false
  | _ => true

def World.empty {K : Type} : World K := ⟨0, .empty, .empty, []⟩

section Extremes
variable {K : Type}

def earliest (log : List (Timed K × Reply)) : Nat := ((log.map fun e => e.1.now).min?).getD 0

def latest (log : List (Timed K × Reply)) : Nat := ((log.map fun e => e.1.now).max?).getD 0

end Extremes

section Log
variable {K : Type} [DecidableEq K]

def Call.refills (key : K) : Call K → Bool
  | .probe k => k = key
  | .charge k _ => k = key
  | .sweepIdle => true
  | .takeDebtForgivenEvictions => false

def admitted (key : K) (log : List (Timed K × Reply)) : List Nat :=
  log.filterMap fun e => match e.1.call, e.2 with
    | .charge k n, .outcome (.ok _) => if k = key then some (max 1 n) else none
    | _, _ => none

/-- The admitted charges but the last cost less than the initial capacity and
what the time between the extreme clock readings can earn. -/
def Bounded (limiter : RateLimiter) (key : K) (log : List (Timed K × Reply)) : Prop :=
  ((admitted key log).dropLast.sum : ℚ) <
    limiter.capacity + limiter.rate * elapsedSecs (latest log) (earliest log)

def machine (limiter : RateLimiter) : Machine (World K) (Event K) where
  step w
    | .tick nanos => some { w with clock := w.clock + nanos }
    | .read thread call =>
      if call.readsClock ∧ w.pending.get thread = none then
        some { w with pending := w.pending.insert thread ⟨w.clock, call⟩ }
      else none
    | .enter thread =>
      (w.pending.get thread).map fun c =>
        { w with
          pending := w.pending.remove thread
          state := (perform limiter w.state c).2
          log := w.log ++ [(c, (perform limiter w.state c).1)] }

def Keeps (limiter : RateLimiter) (key : K) (w : World K) (e : Event K) : Prop :=
  ∀ w', (machine limiter).step w e = some w' →
    w.state.buckets.entries.get key ≠ none → w'.state.buckets.entries.get key ≠ none

/-- A critical section that refills the bucket does not carry a reading older
than the bucket's own timestamp. -/
def Timely (key : K) (w : World K) : Event K → Prop
  | .enter thread => ∀ c, w.pending.get thread = some c → c.call.refills key →
      ∀ b, w.state.buckets.entries.get key = some b → b.updated ≤ c.now
  | _ => True

instance (limiter : RateLimiter) (key : K) (w : World K) (e : Event K) : Decidable (Keeps limiter key w e) :=
  inferInstanceAs (Decidable (∀ w', _ = some w' → _))

instance (key : K) (w : World K) (e : Event K) : Decidable (Timely key w e) :=
  match e with
  | .enter thread => inferInstanceAs (Decidable (∀ c, w.pending.get thread = some c → _))
  | .tick _ => isTrue trivial
  | .read _ _ => isTrue trivial

end Log

section Arithmetic
variable {limiter : RateLimiter}

private theorem elapsedSecs_eq {now earlier : Nat} (h : earlier ≤ now) :
    elapsedSecs now earlier = (now : ℚ) / nanosPerSec - (earlier : ℚ) / nanosPerSec := by
  rw [elapsedSecs]
  rw [Nat.cast_sub h, sub_div]

private theorem elapsedSecs_mono {x y a b : Nat} (h : y - x ≤ b - a) : elapsedSecs y x ≤ elapsedSecs b a := by
  rw [elapsedSecs]
  exact div_le_div_of_nonneg_right (by exact_mod_cast h) (Nat.cast_nonneg _)

/-- Bringing a bucket up to date keeps its account. -/
theorem advance_accounted {r : Reference} {now start : Nat} {spent : ℚ} (hs : start ≤ r.updated)
    (hu : r.updated ≤ now)
    (h : r.balance + spent ≤ limiter.capacity + limiter.rate * elapsedSecs r.updated start) :
    (r.advance limiter now).balance + spent ≤ limiter.capacity + limiter.rate * elapsedSecs now start := by
  rw [elapsedSecs_eq hs] at h
  rw [elapsedSecs_eq (hs.trans hu)]
  simp only [Reference.advance, elapsedSecs_eq hu]
  exact TokenBucket.refill_accounted h

end Arithmetic

section Readings
variable {K : Type}

def Read (log : List (Timed K × Reply)) (t : Nat) : Prop := ∃ e ∈ log, e.1.now = t

private theorem Read.append {log : List (Timed K × Reply)} {t : Nat} (h : Read log t) (e : Timed K × Reply) :
    Read (log ++ [e]) t := by
  obtain ⟨d, hd, he⟩ := h
  exact ⟨d, List.mem_append_left _ hd, he⟩

private theorem read_last (log : List (Timed K × Reply)) (e : Timed K × Reply) : Read (log ++ [e]) e.1.now :=
  ⟨e, by simp, rfl⟩

private theorem earliest_le {log : List (Timed K × Reply)} {t : Nat} (h : Read log t) : earliest log ≤ t := by
  obtain ⟨e, he, rfl⟩ := h
  have hmem : e.1.now ∈ log.map fun e => e.1.now := List.mem_map_of_mem he
  rw [earliest]
  cases hm : (log.map fun e => e.1.now).min? with
  | none => rw [List.min?_eq_none_iff.mp hm] at hmem; cases hmem
  | some m => exact (List.min?_eq_some_iff.mp hm).2 _ hmem

private theorem le_latest {log : List (Timed K × Reply)} {t : Nat} (h : Read log t) : t ≤ latest log := by
  obtain ⟨e, he, rfl⟩ := h
  have hmem : e.1.now ∈ log.map fun e => e.1.now := List.mem_map_of_mem he
  rw [latest]
  cases hm : (log.map fun e => e.1.now).max? with
  | none => rw [List.max?_eq_none_iff.mp hm] at hmem; cases hmem
  | some m => exact (List.max?_eq_some_iff.mp hm).2 _ hmem

end Readings

section Covered
variable {K : Type} {limiter : RateLimiter} {log : List (Timed K × Reply)}

def cost : Access → Outcome → List Nat
  | .charge n, .ok _ => [max 1 n]
  | _, _ => []

/-- What the bucket holds and what was spent is covered by the initial capacity
and the time credited since some reading. -/
def Covered (limiter : RateLimiter) (log : List (Timed K × Reply)) (spent : Nat) (r : Reference) : Prop :=
  ∃ start, Read log start ∧ start ≤ r.updated ∧
    r.balance + spent ≤ limiter.capacity + limiter.rate * elapsedSecs r.updated start

private theorem Covered.append {spent : Nat} {r : Reference} (h : Covered limiter log spent r) (e : Timed K × Reply) :
    Covered limiter (log ++ [e]) spent r := by
  obtain ⟨start, hs, hle, hb⟩ := h
  exact ⟨start, hs.append e, hle, hb⟩

private theorem Covered.advance {spent now : Nat} {r : Reference} (h : Covered limiter log spent r)
    (hnow : r.updated ≤ now) : Covered limiter log spent (r.advance limiter now) := by
  obtain ⟨start, hs, hle, hb⟩ := h
  exact ⟨start, hs, hle.trans hnow, advance_accounted hle hnow hb⟩

private theorem Covered.spend {spent : Nat} {r : Reference} (h : Covered limiter log spent r) (a : Access) :
    Covered limiter log (spent + (cost a (r.spend limiter a).1).sum) (r.spend limiter a).2 := by
  obtain ⟨start, hs, hle, hb⟩ := h
  refine ⟨start, hs, by rw [Reference.spend_updated]; exact hle, ?_⟩
  rw [Reference.spend_updated]
  refine le_trans ?_ hb
  by_cases hpos : r.balance ≤ 0
  · cases a <;> simp [Reference.spend, hpos, cost]
  · cases a with
    | probe => simp [Reference.spend, hpos, cost]
    | charge n =>
      simp only [Reference.spend, if_neg hpos, cost, List.sum_singleton, Nat.cast_add]
      linarith

end Covered

section Account
variable {K : Type} [DecidableEq K] {limiter : RateLimiter} {key : K} {log : List (Timed K × Reply)}

private theorem admitted_append (key : K) (log : List (Timed K × Reply)) (e : Timed K × Reply) :
    admitted key (log ++ [e]) = admitted key log ++ admitted key [e] :=
  List.filterMap_append

private theorem admitted_access {c : Timed K} {a : Access} (o : Outcome) (h : c.call.access? = some (key, a)) :
    admitted key [(c, .outcome o)] = cost a o := by
  cases c with
  | mk now call =>
    cases call with
    | probe k => cases h; rfl
    | charge k n =>
      cases h
      cases o with
      | ok _ => simp [admitted, cost]
      | error _ => rfl
    | sweepIdle => cases h
    | takeDebtForgivenEvictions => cases h

theorem admitted_other {c : Timed K} (r : Reply) (h : ∀ a, c.call.access? ≠ some (key, a)) :
    admitted key [(c, r)] = [] := by
  cases c with
  | mk now call =>
    cases call with
    | charge k n =>
      have hne : k ≠ key := fun he => h (.charge n) (by rw [he]; rfl)
      cases r with
      | outcome o => cases o <;> simp [admitted, hne]
      | count _ => rfl
    | probe _ => rfl
    | sweepIdle => rfl
    | takeDebtForgivenEvictions => rfl

private theorem refills_of_access {call : Call K} {a : Access} (h : call.access? = some (key, a)) :
    call.refills key := by
  cases call with
  | probe k => cases h; exact decide_eq_true rfl
  | charge k n => cases h; exact decide_eq_true rfl
  | sweepIdle => cases h
  | takeDebtForgivenEvictions => cases h

def Within (limiter : RateLimiter) (key : K) (log : List (Timed K × Reply)) : Prop :=
  admitted key log = [] ∨ ∃ x y, Read log x ∧ Read log y ∧
    ((admitted key log).dropLast.sum : ℚ) < limiter.capacity + limiter.rate * elapsedSecs y x

structure Accounted (limiter : RateLimiter) (key : K) (view : Option Reference) (log : List (Timed K × Reply)) :
    Prop where
  unused : view = none → admitted key log = []
  covered : ∀ r ∈ view, Covered limiter log (admitted key log).sum r
  within : Within limiter key log

theorem accounted_empty (limiter : RateLimiter) (key : K) : Accounted limiter key none [] := by
  refine ⟨fun _ => rfl, ?_, .inl rfl⟩
  intro r h
  cases h

private theorem Within.append {e : Timed K × Reply} (h : Within limiter key log) (he : admitted key [e] = []) :
    Within limiter key (log ++ [e]) := by
  rw [Within]
  rw [admitted_append, he, List.append_nil]
  rcases h with hn | ⟨x, y, hx, hy, hlt⟩
  · exact .inl hn
  · exact .inr ⟨x, y, hx.append e, hy.append e, hlt⟩

/-- A charge is admitted only against a positive balance, so what was spent
before it is below the bound. -/
theorem Within.spend {e : Timed K × Reply} {a : Access} {r : Reference} (h : Within limiter key log)
    (hc : Covered limiter (log ++ [e]) (admitted key log).sum r) (hu : Read (log ++ [e]) r.updated)
    (he : admitted key [e] = cost a (r.spend limiter a).1) : Within limiter key (log ++ [e]) := by
  by_cases hpos : r.balance ≤ 0
  · refine h.append (he.trans ?_)
    cases a <;> simp [Reference.spend, hpos, cost]
  · cases a with
    | probe => exact h.append (he.trans rfl)
    | charge n =>
      obtain ⟨start, hs, -, hb⟩ := hc
      refine .inr ⟨start, r.updated, hs, hu, ?_⟩
      rw [admitted_append, he]
      simp only [Reference.spend, if_neg hpos, cost, List.dropLast_concat]
      have hpos := not_le.mp hpos
      linarith

variable {view : Option Reference}

/-- The key's own access. -/
theorem Accounted.access {c : Timed K} {a : Access} (h : Accounted limiter key view log)
    (hnow : ∀ r ∈ view, r.updated ≤ c.now) (ha : c.call.access? = some (key, a)) :
    Accounted limiter key (some (Reference.access limiter c.now a view).2)
      (log ++ [(c, .outcome (Reference.access limiter c.now a view).1)]) := by
  -- both branches of the access spend from a bucket that is up to date
  obtain ⟨r, hr, hu, hcov⟩ : ∃ r : Reference, Reference.access limiter c.now a view = r.spend limiter a ∧
      r.updated = c.now ∧ ∀ e : Timed K × Reply, e.1 = c → Covered limiter (log ++ [e]) (admitted key log).sum r := by
    cases view with
    | none =>
      refine ⟨Reference.fresh limiter c.now, rfl, rfl, ?_⟩
      rintro e rfl
      refine ⟨e.1.now, read_last log e, le_rfl, ?_⟩
      rw [h.unused rfl]
      simp [Reference.fresh, elapsedSecs]
    | some r =>
      refine ⟨r.advance limiter c.now, rfl, rfl, ?_⟩
      rintro e rfl
      exact ((h.covered r rfl).append e).advance (hnow r rfl)
  rw [hr]
  have he := admitted_access (r.spend limiter a).1 ha
  have hcov := hcov (c, .outcome (r.spend limiter a).1) rfl
  refine ⟨?_, ?_, ?_⟩
  · intro hn
    cases hn
  · intro q hq
    cases hq
    rw [admitted_append, he, List.sum_append]
    exact hcov.spend a
  · refine h.within.spend hcov ?_ he
    rw [hu]
    exact read_last ..

/-- A call that costs the key nothing and leaves its bucket, or brings it up to
date. -/
theorem Accounted.other {view' : Option Reference} {e : Timed K × Reply} (h : Accounted limiter key view log)
    (he : admitted key [e] = [])
    (hv : view' = view ∨
      (∀ r ∈ view, r.updated ≤ e.1.now) ∧ view' = view.map (Reference.advance limiter · e.1.now)) :
    Accounted limiter key view' (log ++ [e]) := by
  have hadm : admitted key (log ++ [e]) = admitted key log := by
    rw [admitted_append, he, List.append_nil]
  refine ⟨?_, ?_, h.within.append he⟩
  · intro hn
    rw [hadm]
    rcases hv with rfl | ⟨_, rfl⟩
    · exact h.unused hn
    · exact h.unused (Option.map_eq_none_iff.mp hn)
  · intro r hr
    rw [hadm]
    rcases hv with rfl | ⟨hnow, rfl⟩
    · exact (h.covered r hr).append e
    · obtain ⟨q, hq, rfl⟩ := Option.map_eq_some_iff.mp hr
      exact ((h.covered q hq).append e).advance (hnow q hq)

theorem Within.bounded (hr : limiter.rate ≠ 0) (h : Within limiter key log) : Bounded limiter key log := by
  have hrate : (0 : ℚ) ≤ limiter.rate := Nat.cast_nonneg _
  rw [Bounded]
  rcases h with hn | ⟨x, y, hx, hy, hlt⟩
  · rw [hn]
    have hpos := capacity_pos hr
    have := mul_nonneg hrate (elapsedSecs_nonneg (latest log) (earliest log))
    simp only [List.dropLast_nil, List.sum_nil, Nat.cast_zero]
    linarith
  · have hspan : y - x ≤ latest log - earliest log := tsub_le_tsub (le_latest hy) (earliest_le hx)
    have := mul_le_mul_of_nonneg_left (elapsedSecs_mono hspan) hrate
    linarith

/-- One step of the interleaving keeps the account of a key that it does not
evict and whose bucket it does not take back in time. -/
theorem accounted_step (hr : limiter.rate ≠ 0) {w w' : World K} {e : Event K}
    (h : Accounted limiter key (w.state.view key) w.log) (hkeeps : Keeps limiter key w e) (htimely : Timely key w e)
    (hs : (machine limiter).step w e = some w') : Accounted limiter key (w'.state.view key) w'.log := by
  cases e with
  | tick nanos => cases hs; exact h
  | read thread call =>
    simp only [machine] at hs
    split at hs
    · cases hs; exact h
    · cases hs
  | enter thread =>
    have hkept := hkeeps w' hs
    obtain ⟨c, hc, rfl⟩ := Option.map_eq_some_iff.mp hs
    have hnow (hf : c.call.refills key) : ∀ r ∈ w.state.view key, r.updated ≤ c.now := by
      intro r hv
      obtain ⟨b, hb, rfl⟩ := Option.map_eq_some_iff.mp hv
      exact htimely c hc hf b hb
    by_cases hown : ∃ a, c.call.access? = some (key, a)
    · obtain ⟨a, ha⟩ := hown
      obtain ⟨ho, hv⟩ := access_view_self w.state key c.now a hr
      simp only [perform_access limiter ha, ho, hv]
      exact h.access (hnow (refills_of_access ha)) ha
    · have hother (a : Access) : c.call.access? ≠ some (key, a) := fun ha => hown ⟨a, ha⟩
      refine h.other (admitted_other _ hother) ?_
      rcases perform_view_other c hr hkept hother with hv | ⟨hsweep, hv⟩
      · exact .inl hv
      · exact .inr ⟨hnow (by rw [hsweep]; rfl), hv⟩

/-- As long as no critical section takes the key's bucket back in time, the
admitted charges of a key that is not evicted stay within the bound, in every
interleaving. -/
theorem bounded_of_timely (limiter : RateLimiter) (key : K) (events : List (Event K)) (w : World K)
    (hr : 0 < limiter.rate) (hrun : (machine limiter).run .empty events = some w)
    (hkeeps : (machine limiter).Along (Keeps limiter key) .empty events)
    (htimely : (machine limiter).Along (Timely key) .empty events) : Bounded limiter key w.log := by
  have hacc : Accounted limiter key (w.state.view key) w.log :=
    (hkeeps.and htimely).invariant (I := fun w => Accounted limiter key (w.state.view key) w.log)
      (fun _ _ _ h hok hs => accounted_step hr.ne' h hok.1 hok.2 hs) hrun (accounted_empty limiter key)
  exact hacc.within.bounded hr.ne'

end Account

def twoThreads (delayed : Bool) : List (Event Unit) :=
  [.read 1 (.charge () 2), .enter 1] ++ (if delayed then [.read 2 (.probe ())] else []) ++
    [.tick (2 * nanosPerSec), .read 1 (.charge () 2), .enter 1] ++
    (if delayed then [] else [.read 2 (.probe ())]) ++ [.enter 2, .read 1 (.charge () 2), .enter 1]

def onePerSec : RateLimiter := .new 1 (by norm_num)

theorem bounded_of_timely_twoThreads :
    ∃ w, (machine onePerSec).run .empty (twoThreads false) = some w ∧ admitted () w.log = [2, 2] ∧
      Bounded onePerSec () w.log := by
  have hrun : ((machine onePerSec).run .empty (twoThreads false)).isSome := by decide +kernel
  obtain ⟨w, hw⟩ := Option.isSome_iff_exists.mp hrun
  refine ⟨w, hw, ?_, bounded_of_timely onePerSec () (twoThreads false) w (by decide) hw (by decide +kernel)
    (by decide +kernel)⟩
  have hadm : ((machine onePerSec).run .empty (twoThreads false)).map (fun w => admitted () w.log) =
      some [2, 2] := by decide +kernel
  rw [hw] at hadm
  exact Option.some.inj hadm

/-- The delayed probe is rejected, but it moves the bucket's timestamp back by
two seconds, and the next charge is credited with them again. -/
theorem delayed_probe_exceeds_bound :
    ∃ w, (machine onePerSec).run .empty (twoThreads true) = some w ∧
      (machine onePerSec).Along (Keeps onePerSec ()) .empty (twoThreads true) ∧
      admitted () w.log = [2, 2, 2] ∧ earliest w.log = 0 ∧ latest w.log = 2 * nanosPerSec ∧
      ¬ Bounded onePerSec () w.log := by
  have hrun : ((machine onePerSec).run .empty (twoThreads true)).isSome := by decide +kernel
  obtain ⟨w, hw⟩ := Option.isSome_iff_exists.mp hrun
  have hlog : ((machine onePerSec).run .empty (twoThreads true)).map
      (fun w => (admitted () w.log, earliest w.log, latest w.log)) =
        some ([2, 2, 2], 0, 2 * nanosPerSec) := by decide +kernel
  rw [hw] at hlog
  have hlog := Option.some.inj hlog
  simp only [Prod.mk.injEq] at hlog
  obtain ⟨hadm, hfirst, hlast⟩ := hlog
  refine ⟨w, hw, by decide +kernel, hadm, hfirst, hlast, ?_⟩
  rw [Bounded, hadm, hfirst, hlast]
  decide +kernel

end Srh.Domain.RateLimit
