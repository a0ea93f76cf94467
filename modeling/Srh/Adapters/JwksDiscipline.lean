import Srh.Adapters.HttpJwks

/-! The refresh discipline of the JWKS source over every interleaving. The holder
of the refresh lock is alone in changing the cache, so what it has checked stays
true until it lets go. -/
namespace Srh.Adapters.HttpJwks
open Srh.Lib Srh.Domain

/-- Forced refreshes keep their distance from each other, unforced ones from the
successes before them. -/
def Spaced (refreshAfter : Nat) : Deed → Deed → Prop
  | .io true later, .io true earlier => earlier + forcedRefreshInterval ≤ later
  | .io false later, .success earlier _ _ => earlier + refreshAfter ≤ later
  | _, _ => True

def installedBy : List Deed → Installed
  | [] => KeyCache.default.toInstalled
  | .io _ _ :: deeds => installedBy deeds
  | .success now uri keys :: _ => ⟨keys, some now, some uri⟩

def Deed.time : Deed → Nat
  | io _ admitted => admitted
  | success admitted _ _ => admitted

def Phase.now : Phase → Option Nat
  | considering _ now | marking now | resolving _ now | discovering _ now | fetching _ now _ | installing _ now _ _ =>
    some now
  | _ => none

section Invariant
variable (refreshAfter : Nat)

def Ready (s : Shared) : Phase → Prop
  | .marking now => ∀ d ∈ s.history, Spaced refreshAfter (.io true now) d
  | .resolving forced now =>
    (∀ d ∈ s.history, Spaced refreshAfter (.io forced now) d) ∧ (forced → s.cache.lastForcedRefresh = some now)
  | _ => True

/-- The holder of the lock has found and left the cache as it was. -/
structure Working (s : Shared) (phase : Phase) : Prop where
  untouched : s.cache.toInstalled = s.atLock
  latest : ∀ now, phase.now = some now → now ≤ s.clock ∧ ∀ d ∈ s.history, d.time ≤ now
  ready : Ready refreshAfter s phase

structure Kept (s : Shared) : Prop where
  times : ∀ d ∈ s.history, d.time ≤ s.clock
  marked : ∀ now, .io true now ∈ s.history → ∃ last, s.cache.lastForcedRefresh = some last ∧ now ≤ last
  dated : ∀ now uri keys, .success now uri keys ∈ s.history → ∃ fetched, s.cache.fetchedAt = some fetched ∧ now ≤ fetched
  spaced : s.history.Pairwise (Spaced refreshAfter)
  installed : s.cache.toInstalled = installedBy s.history

structure Disciplined (s : State) : Prop where
  kept : Kept refreshAfter s.toShared
  held : ∀ i call, s.calls i = some call → call.phase.inside →
    s.holder = some i ∧ Working refreshAfter s.toShared call.phase
  answers : ∀ r ∈ s.returned, ∀ key, r.result = .ok key → r.cache.keys.get r.kid = some key

variable {refreshAfter} {s t : State} {i : Nat} {kid : String}

/-- A step of one call: it leaves the shared part alone, or no other call holds the
lock, so no other call sees a difference. -/
theorem Disciplined.held_set (h : Disciplined refreshAfter s) {new : Option Call} (hcalls : t.calls = Function.update s.calls i new)
    (hshared : t.toShared = s.toShared ∨ ∀ j, s.holder = some j → j = i)
    (hnew : ∀ call, new = some call → call.phase.inside → t.holder = some i ∧ Working refreshAfter t.toShared call.phase) :
    ∀ j call, t.calls j = some call → call.phase.inside → t.holder = some j ∧ Working refreshAfter t.toShared call.phase := by
  intro j call hj hin
  rw [hcalls, Function.update_apply] at hj
  split at hj
  · rename_i hji
    rw [hji]
    exact hnew call hj hin
  · rename_i hji
    have hw := h.held j call hj hin
    rcases hshared with hsame | hsole
    · rw [hsame]
      exact hw
    · exact absurd (hsole j hw.1) hji

private theorem Disciplined.sole (h : Disciplined refreshAfter s) {phase : Phase} (hc : s.calls i = some ⟨kid, phase⟩)
    (hin : phase.inside) : ∀ j, s.holder = some j → j = i :=
  fun _ hj => Option.some.inj (hj.symm.trans (h.held i _ hc hin).1)

private theorem Disciplined.move (h : Disciplined refreshAfter s) {phase : Phase}
    (hp : phase.inside → s.holder = some i ∧ Working refreshAfter s.toShared phase) :
    Disciplined refreshAfter (s.move i kid phase) where
  kept := h.kept
  held := h.held_set rfl (.inl rfl) (by rintro call ⟨⟩; exact hp)
  answers := h.answers

private theorem Disciplined.finish (h : Disciplined refreshAfter s) {result : Except JwksError CachedKey}
    (hr : ∀ key, result = .ok key → s.cache.keys.get kid = some key) : Disciplined refreshAfter (s.finish i kid result) where
  kept := h.kept
  held := h.held_set rfl (.inl rfl) nofun
  answers := List.forall_mem_cons.mpr ⟨hr, h.answers⟩

/-- A call that lets go of the lock leaves the refresh. -/
theorem Disciplined.release (h : Disciplined refreshAfter s) {phase : Phase} (hc : s.calls i = some ⟨kid, phase⟩)
    (hin : phase.inside) {new : Option Call} (hnew : ∀ call, new = some call → call.phase.inside = false) :
    Disciplined refreshAfter (s.release.set i new) where
  kept := { h.kept with }
  held := h.held_set rfl (.inr (h.sole hc hin)) fun call hcall hcin => by simp [hnew call hcall] at hcin
  answers := h.answers

/-- An admitted refresh keeps its distance from all that was done before. -/
theorem Kept.spaced_of_admitted {s : Shared} (h : Kept refreshAfter s) {forced : Bool} {now : Nat}
    (hnow : ∀ d ∈ s.history, d.time ≤ now) (ha : admitted refreshAfter s.cache forced now) :
    ∀ d ∈ s.history, Spaced refreshAfter (.io forced now) d := by
  intro d hd
  have ht := hnow d hd
  cases forced with
  | true =>
    cases d with
    | io other earlier =>
      cases other with
      | true =>
        obtain ⟨last, hl, hle⟩ := h.marked earlier hd
        simp only [admitted, if_true, hl, Option.all_some, decide_eq_true_eq] at ha
        simp only [Deed.time] at ht
        simp only [Spaced]
        omega
      | false => trivial
    | success => trivial
  | false =>
    cases d with
    | io => trivial
    | success earlier uri keys =>
      obtain ⟨fetched, hf, hle⟩ := h.dated earlier uri keys hd
      simp only [admitted, Bool.false_eq_true, if_false, hf, Option.all_some, decide_eq_true_eq] at ha
      simp only [Deed.time] at ht
      simp only [Spaced]
      omega

section Go
variable (h : Disciplined refreshAfter s)
include h

private theorem go_locking {forced : Bool} (ht : go refreshAfter s i kid (.locking forced) = some t) : Disciplined refreshAfter t := by
  rw [go] at ht
  split at ht
  · rename_i hfree
    cases ht
    refine { h with kept := { h.kept with }, held := h.held_set rfl (.inr ?_) ?_ }
    · intro j hj
      rw [hfree] at hj
      cases hj
    · rintro call ⟨⟩ -
      exact ⟨rfl, rfl, nofun, trivial⟩
  · cases ht

private theorem go_timing {forced : Bool} (hc : s.calls i = some ⟨kid, .timing forced⟩)
    (ht : go refreshAfter s i kid (.timing forced) = some t) : Disciplined refreshAfter t := by
  cases ht
  have hw := h.held i _ hc rfl
  refine h.move fun _ => ⟨hw.1, hw.2.untouched, ?_, trivial⟩
  rintro now ⟨⟩
  exact ⟨Nat.le_refl _, h.kept.times⟩

private theorem go_considering {forced : Bool} {now : Nat} (hc : s.calls i = some ⟨kid, .considering forced now⟩)
    (ht : go refreshAfter s i kid (.considering forced now) = some t) : Disciplined refreshAfter t := by
  have hw := h.held i _ hc rfl
  rw [go] at ht
  split at ht
  · rename_i ha
    cases ht
    have hspaced := h.kept.spaced_of_admitted (hw.2.latest now rfl).2 ha
    refine h.move fun _ => ⟨hw.1, hw.2.untouched, ?_, ?_⟩
    · cases forced <;> exact hw.2.latest
    · cases forced with
      | true => exact hspaced
      | false => exact ⟨hspaced, nofun⟩
  · cases ht
    exact h.release hc rfl (by rintro call ⟨⟩; rfl)

private theorem go_marking {now : Nat} (hc : s.calls i = some ⟨kid, .marking now⟩)
    (ht : go refreshAfter s i kid (.marking now) = some t) : Disciplined refreshAfter t := by
  have hw := h.held i _ hc rfl
  cases ht
  refine { h with kept := { h.kept with marked := ?_ }, held := h.held_set rfl (.inr (h.sole hc rfl)) ?_ }
  · exact fun earlier he => ⟨now, rfl, (hw.2.latest now rfl).2 _ he⟩
  · rintro call ⟨⟩ -
    exact ⟨hw.1, hw.2.untouched, hw.2.latest, hw.2.ready, fun _ => rfl⟩

private theorem go_resolving {forced : Bool} {now : Nat} (hc : s.calls i = some ⟨kid, .resolving forced now⟩)
    (ht : go refreshAfter s i kid (.resolving forced now) = some t) : Disciplined refreshAfter t := by
  have hw := h.held i _ hc rfl
  have hlatest := hw.2.latest now rfl
  cases ht
  refine { h with kept := ?_, held := h.held_set rfl (.inr (h.sole hc rfl)) ?_ }
  · constructor
    case times => exact List.forall_mem_cons.mpr ⟨hlatest.1, h.kept.times⟩
    case marked =>
      intro earlier he
      rcases List.mem_cons.mp he with heq | he
      · cases heq
        exact ⟨now, hw.2.ready.2 rfl, Nat.le_refl now⟩
      · exact h.kept.marked earlier he
    case dated =>
      intro earlier uri keys he
      rcases List.mem_cons.mp he with heq | he
      · cases heq
      · exact h.kept.dated earlier uri keys he
    case spaced => exact List.pairwise_cons.mpr ⟨hw.2.ready.1, h.kept.spaced⟩
    case installed => exact h.kept.installed
  · rintro call ⟨⟩ -
    refine ⟨hw.1, hw.2.untouched, ?_, ?_⟩
    · intro time htime
      have hsame : time = now := by
        cases hu : s.cache.jwksUri with
        | none => simpa [hu, Phase.now, eq_comm] using htime
        | some uri => simpa [hu, Phase.now, eq_comm] using htime
      rw [hsame]
      exact ⟨hlatest.1, List.forall_mem_cons.mpr ⟨Nat.le_refl now, hlatest.2⟩⟩
    · cases s.cache.jwksUri <;> trivial

private theorem go_installing {forced : Bool} {now : Nat} {uri : String} {keys : FiniteMap String CachedKey}
    (hc : s.calls i = some ⟨kid, .installing forced now uri keys⟩)
    (ht : go refreshAfter s i kid (.installing forced now uri keys) = some t) : Disciplined refreshAfter t := by
  have hw := h.held i _ hc rfl
  have hlatest := hw.2.latest now rfl
  cases ht
  refine { h with kept := ?_, held := h.held_set rfl (.inr (h.sole hc rfl)) ?_ }
  · constructor
    case times => exact List.forall_mem_cons.mpr ⟨hlatest.1, h.kept.times⟩
    case marked =>
      intro earlier he
      rcases List.mem_cons.mp he with heq | he
      · cases heq
      · exact h.kept.marked earlier he
    case dated =>
      intro earlier u k he
      rcases List.mem_cons.mp he with heq | he
      · cases heq
        exact ⟨now, rfl, Nat.le_refl now⟩
      · exact ⟨now, rfl, hlatest.2 _ he⟩
    case spaced => exact List.pairwise_cons.mpr ⟨fun _ _ => trivial, h.kept.spaced⟩
    case installed => rfl
  · rintro call ⟨⟩ hin
    cases hin

private theorem go_reading {forced : Bool} (ht : go refreshAfter s i kid (.reading forced) = some t) : Disciplined refreshAfter t := by
  rw [go] at ht
  split at ht
  · rename_i key hk
    cases ht
    refine h.finish ?_
    rintro _ ⟨⟩
    exact hk
  · cases ht
    split
    · exact h.finish nofun
    · exact h.move nofun

private theorem go_step {phase : Phase} (hc : s.calls i = some ⟨kid, phase⟩) (ht : go refreshAfter s i kid phase = some t) :
    Disciplined refreshAfter t := by
  cases phase with
  | checking =>
    cases ht
    refine h.move fun hin => ?_
    split at hin <;> cases hin
  | locking forced => exact go_locking h ht
  | timing forced => exact go_timing h hc ht
  | considering forced now => exact go_considering h hc ht
  | marking now => exact go_marking h hc ht
  | resolving forced now => exact go_resolving h hc ht
  | discovering forced now => cases ht
  | fetching forced now uri => cases ht
  | installing forced now uri keys => exact go_installing h hc ht
  | reading forced => exact go_reading h ht

end Go

/-- A refresh that fails gives up the lock and the call returns its error. -/
theorem Disciplined.fail (h : Disciplined refreshAfter s) {phase : Phase} (hc : s.calls i = some ⟨kid, phase⟩) (hin : phase.inside)
    (error : JwksError) : Disciplined refreshAfter (s.release.finish i kid (.error error)) := by
  have hreleased : Disciplined refreshAfter (s.release.set i none) := h.release hc hin nofun
  exact { hreleased with answers := List.forall_mem_cons.mpr ⟨nofun, h.answers⟩ }

private theorem discovered_step {answer : Except JwksError String} {phase : Phase} (h : Disciplined refreshAfter s)
    (hc : s.calls i = some ⟨kid, phase⟩) (ht : discovered s i kid answer phase = some t) : Disciplined refreshAfter t := by
  cases phase with
  | discovering forced now =>
    have hw := h.held i _ hc rfl
    cases answer with
    | ok uri =>
      cases ht
      exact h.move fun _ => ⟨hw.1, hw.2.untouched, hw.2.latest, trivial⟩
    | error error =>
      cases ht
      exact h.fail hc rfl error
  | _ => cases ht

private theorem fetched_step {answer : Except JwksError (List Jwk)} {phase : Phase} (h : Disciplined refreshAfter s)
    (hc : s.calls i = some ⟨kid, phase⟩) (ht : fetched s i kid answer phase = some t) : Disciplined refreshAfter t := by
  cases phase with
  | fetching forced now uri =>
    have hw := h.held i _ hc rfl
    cases answer with
    | ok jwks =>
      cases ht
      exact h.move fun _ => ⟨hw.1, hw.2.untouched, hw.2.latest, trivial⟩
    | error error =>
      cases ht
      exact h.fail hc rfl error
  | _ => cases ht

private theorem cancel_step {phase : Phase} (h : Disciplined refreshAfter s) (hc : s.calls i = some ⟨kid, phase⟩) :
    Disciplined refreshAfter (cancel s i phase) := by
  rw [cancel]
  split
  · rename_i hin
    exact h.release hc hin nofun
  · exact { h with held := h.held_set rfl (.inl rfl) nofun }

private theorem tick_step {duration : Nat} (h : Disciplined refreshAfter s) (ht : step refreshAfter s (.tick duration) = some t) :
    Disciplined refreshAfter t := by
  cases ht
  refine { h with kept := { h.kept with times := fun d hd => Nat.le_add_right_of_le (h.kept.times d hd) }, held := ?_ }
  intro j call hj hin
  obtain ⟨hholder, hw⟩ := h.held j call hj hin
  exact ⟨hholder, hw.untouched, fun now hn => ⟨Nat.le_add_right_of_le (hw.latest now hn).1, (hw.latest now hn).2⟩, hw.ready⟩

private theorem disciplined_step {event : Event} (h : Disciplined refreshAfter s) (ht : step refreshAfter s event = some t) :
    Disciplined refreshAfter t := by
  cases event with
  | start i kid =>
    rw [step] at ht
    split at ht
    · cases ht
      exact h.move nofun
    · cases ht
  | go i =>
    obtain ⟨call, hc, ht⟩ := Option.bind_eq_some_iff.mp ht
    exact go_step h hc ht
  | discovered i answer =>
    obtain ⟨call, hc, ht⟩ := Option.bind_eq_some_iff.mp ht
    exact discovered_step h hc ht
  | fetched i answer =>
    obtain ⟨call, hc, ht⟩ := Option.bind_eq_some_iff.mp ht
    exact fetched_step h hc ht
  | cancel i =>
    obtain ⟨call, hc, rfl⟩ := Option.map_eq_some_iff.mp ht
    exact cancel_step h hc
  | tick duration => exact tick_step h ht

private theorem disciplined_init : Disciplined refreshAfter .init where
  kept := ⟨nofun, nofun, nofun, .nil, rfl⟩
  held := nofun
  answers := nofun

/-- The event ends a refresh without success: a fetch fails, or the call that holds
the lock is cancelled. -/
def endsRefresh (s : State) : Event → Bool
  | .discovered _ (.error _) => true
  | .fetched _ (.error _) => true
  | .cancel i => (s.calls i).any (·.phase.inside)
  | _ => false

private theorem Disciplined.untouched {event : Event} (h : Disciplined refreshAfter s) (ht : step refreshAfter s event = some t)
    (he : endsRefresh s event) : t.cache.toInstalled = s.atLock := by
  cases event with
  | start i kid => cases he
  | go i => cases he
  | tick duration => cases he
  | discovered i answer =>
    cases answer with
    | ok uri => cases he
    | error error =>
      obtain ⟨⟨kid, phase⟩, hc, ht⟩ := Option.bind_eq_some_iff.mp ht
      cases phase with
      | discovering forced now =>
        cases ht
        exact (h.held i _ hc rfl).2.untouched
      | _ => cases ht
  | fetched i answer =>
    cases answer with
    | ok jwks => cases he
    | error error =>
      obtain ⟨⟨kid, phase⟩, hc, ht⟩ := Option.bind_eq_some_iff.mp ht
      cases phase with
      | fetching forced now uri =>
        cases ht
        exact (h.held i _ hc rfl).2.untouched
      | _ => cases ht
  | cancel i =>
    obtain ⟨call, hc, rfl⟩ := Option.map_eq_some_iff.mp ht
    have hin : call.phase.inside := by simpa [endsRefresh, hc] using he
    rw [cancel, if_pos hin]
    exact (h.held i call hc hin).2.untouched

end Invariant

/-- In every run: forced refreshes with I/O are admitted at least the interval apart,
unforced ones not before the refresh time of any earlier success has passed; a refresh
that fails or is cancelled leaves what was installed when it took the lock; what is
installed comes from one success, the latest; and a call returns a key only from the
set installed when it read. -/
theorem refresh_discipline (refreshAfter : Nat) {events : List Event} {t : State}
    (hr : (machine refreshAfter).run .init events = some t) :
    t.history.Pairwise (Spaced refreshAfter) ∧
    (∀ event u, (machine refreshAfter).step t event = some u → endsRefresh t event → u.cache.toInstalled = t.atLock) ∧
    t.cache.toInstalled = installedBy t.history ∧
    ∀ r ∈ t.returned, ∀ key, r.result = .ok key → r.cache.keys.get r.kid = some key := by
  have h := Machine.run_invariant (I := Disciplined refreshAfter) (fun _ _ _ h => disciplined_step h) hr disciplined_init
  exact ⟨h.kept.spaced, fun _ _ hu he => h.untouched hu he, h.kept.installed, h.answers⟩

def missingKey : List Event :=
  [.start 0 "missing", .go 0, .go 0, .go 0, .go 0, .go 0, .discovered 0 (.ok "https://issuer.test/keys"), .fetched 0 (.ok []),
    .go 0, .go 0, .tick forcedRefreshInterval, .go 0, .go 0, .go 0, .go 0, .go 0]

theorem refresh_discipline_missingKey :
    ((machine 600).run .init missingKey).isSome ∧ ∀ t, (machine 600).run .init missingKey = some t →
      t.history.Pairwise (Spaced 600) ∧
      (∀ event u, (machine 600).step t event = some u → endsRefresh t event → u.cache.toInstalled = t.atLock) ∧
      t.cache.toInstalled = installedBy t.history ∧
      ∀ r ∈ t.returned, ∀ key, r.result = .ok key → r.cache.keys.get r.kid = some key :=
  ⟨by decide, fun _ ht => refresh_discipline 600 ht⟩

end Srh.Adapters.HttpJwks
