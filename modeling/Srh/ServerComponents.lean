import Srh.Server

/-! The components of the server run as they do alone: whatever holds of every run of one
of them holds of it within the server. -/
namespace Srh.Server
open Srh.Lib Srh.Domain Srh.Ports Srh.Http Srh.Http.Gateway Srh.Adapters

section Inversion
variable {Key : Type} (app : AppState) (library : Jwt.Library Key) (s : State)

def arrived (inbound : Inbound) : State := { s with gateway := s.gateway.arrive app inbound }

/-- Everything that a step of the server can do. -/
inductive Steps : Event → State → Prop where
  | arrived (inbound : Inbound) (h : ∀ token, (arrived app s inbound).waiting s.gateway.tasks.length ≠ some (.authenticating token)) :
      Steps (.arrive inbound) (arrived app s inbound)
  | started {inbound : Inbound} {token : String} {t : State}
      (hw : (arrived app s inbound).waiting s.gateway.tasks.length = some (.authenticating token))
      (h : (arrived app s inbound).authenticate app library (.start s.gateway.tasks.length token) = some t) :
      Steps (.arrive inbound) t
  | authenticate {event : Authentication.Event} {t : State} (he : event.inner) (h : s.authenticate app library event = some t) :
      Steps (.authenticate event) t
  | authenticated {i now ticket : Nat} {bearer : String} {result : Except AuthError (Option Identity)} {u t : State}
      (hc : s.authentication.calls i = some ⟨ticket, bearer, .done result⟩) (hu : s.authenticate app library (.finish i) = some u)
      (h : u.hear app i (.authenticated now result) = some t) : Steps (.authenticated i now) t
  | read {i now : Nat} {upload : Upload} {buildError : Option String} {t : State} (h : s.hear app i (.read now upload) = some t)
      (hw : ∀ request work, t.waiting i ≠ some (.acquiring request work)) : Steps (.read i now upload buildError) t
  | refused {i now : Nat} {upload : Upload} {buildError : Option String} {request : Request} {work : Work} {error : AcquireError}
      {u t : State} (hu : s.hear app i (.read now upload) = some u) (hw : u.waiting i = some (.acquiring request work))
      (he : PoolManager.getOrBuild app.cfg.pools u.pools request.identity.pool buildError = .error error)
      (h : u.hear app i (.acquired (.error error)) = some t) : Steps (.read i now upload buildError) t
  | acquiring {i now : Nat} {upload : Upload} {buildError : Option String} {request : Request} {work : Work}
      {built : PoolManager.World × Nat} {u t : State} (hu : s.hear app i (.read now upload) = some u)
      (hw : u.waiting i = some (.acquiring request work))
      (hb : PoolManager.getOrBuild app.cfg.pools u.pools request.identity.pool buildError = .ok built)
      (h : u.manage app (.acquire request.identity.pool buildError) = some t) :
      Steps (.read i now upload buildError) { t with leases := Function.update t.leases i (some u.pools.tasks.length) }
  | pool {i j : Nat} {action : PoolManager.Action} {u t : State} (ha : ownAction action) (hj : s.leases i = some j)
      (hu : s.manage app (.act j action) = some u) (h : u.deliver app i j = some t) : Steps (.pool i action) t
  | returned {i j : Nat} {executor : Executor} {request : Request} {work : Work} {t : State}
      (hw : s.waiting i = some (.calling request work)) (hj : s.leases i = some j) (hjoined : joined executor work.operation)
      (h : s.manage app (.act j (.complete (recorded executor work.operation))) = some t) :
      Steps (.returned i executor) { t with results := Function.update t.results i (some executor) }
  | elapsed {i : Nat} {u t : State} (hu : s.dropFuture app library i = some u) (h : u.hear app i .elapse = some t) :
      Steps (.elapse i) t
  | abandoned {i : Nat} {u t : State} (hu : s.dropFuture app library i = some u) (h : u.hear app i .abandon = some t) :
      Steps (.abandon i) t
  | checked {i : Nat} {pools : List PoolReadiness} {t : State} (h : s.hear app i (.checked pools) = some t) :
      Steps (.checked i pools) t
  | maintained {event : PoolManager.Event} {t : State} (he : upkeep event) (h : s.manage app event = some t) :
      Steps (.maintain event) t
  | swept (now : Nat) : Steps (.sweep now) { s with gateway := s.gateway.sweep app now }

variable {app library s} {t : State}

private theorem steps_acquire {i now : Nat} {upload : Upload} {buildError : Option String} {u : State}
    (hu : s.hear app i (.read now upload) = some u) (h : u.acquire app i buildError = some t) :
    Steps app library s (.read i now upload buildError) t := by
  rw [State.acquire] at h
  split at h
  · rename_i request work hw
    split at h
    · rename_i error he
      exact .refused hu hw he h
    · rename_i built hb
      obtain ⟨v, hv, rfl⟩ := Option.map_eq_some_iff.mp h
      exact .acquiring hu hw hb hv
  · rename_i hw
    cases h
    exact .read hu fun request work hn => hw request work hn

theorem steps_of_step {e : Event} (h : step app library s e = some t) : Steps app library s e t := by
  cases e with
  | arrive inbound =>
    rw [step] at h
    split at h
    · rename_i token hw
      exact .started hw h
    · rename_i hw
      cases h
      exact .arrived inbound fun token hn => hw token hn
  | authenticate event =>
    rw [step] at h
    split at h
    · rename_i he
      exact .authenticate he h
    · cases h
  | authenticated i now =>
    rw [step] at h
    split at h
    · rename_i bearer result hc
      obtain ⟨u, hu, h⟩ := Option.bind_eq_some_iff.mp h
      exact .authenticated hc hu h
    · cases h
  | read i now upload buildError =>
    obtain ⟨u, hu, h⟩ := Option.bind_eq_some_iff.mp h
    exact steps_acquire hu h
  | pool i action =>
    rw [step] at h
    split at h
    · rename_i ha
      obtain ⟨j, hj, h⟩ := Option.bind_eq_some_iff.mp h
      obtain ⟨u, hu, h⟩ := Option.bind_eq_some_iff.mp h
      exact .pool ha hj hu h
    · cases h
  | returned i executor =>
    rw [step] at h
    split at h
    · rename_i request work j hw hj
      split at h
      · rename_i hjoined
        obtain ⟨u, hu, rfl⟩ := Option.map_eq_some_iff.mp h
        exact .returned hw hj hjoined hu
      · cases h
    · cases h
  | elapse i =>
    obtain ⟨u, hu, h⟩ := Option.bind_eq_some_iff.mp h
    exact .elapsed hu h
  | abandon i =>
    obtain ⟨u, hu, h⟩ := Option.bind_eq_some_iff.mp h
    exact .abandoned hu h
  | checked i pools => exact .checked h
  | maintain event =>
    rw [step] at h
    split at h
    · rename_i he
      exact .maintained he h
    · cases h
  | sweep now =>
    cases h
    exact .swept now

end Inversion

section Components
variable {Key : Type} {app : AppState} {library : Jwt.Library Key} {s t u : State} {i : Nat}

structure Advances (app : AppState) (library : Jwt.Library Key) (s t : State) : Prop where
  gateway : (Gateway.machine app).Reaches s.gateway t.gateway
  authentication : (Authentication.machine library app.cfg).Reaches s.authentication t.authentication
  pools : (PoolManager.machine app.cfg.pools).Reaches s.pools t.pools

private theorem Advances.refl (s : State) : Advances app library s s := ⟨.refl _, .refl _, .refl _⟩

private theorem Advances.trans (h : Advances app library s t) (h' : Advances app library t u) : Advances app library s u :=
  ⟨h.gateway.trans h'.gateway, h.authentication.trans h'.authentication, h.pools.trans h'.pools⟩

private theorem hear_advances {signal : Signal} (h : s.hear app i signal = some t) : Advances app library s t := by
  obtain ⟨gateway, hg, rfl⟩ := Option.map_eq_some_iff.mp h
  exact ⟨Machine.reaches_step hg, .refl _, .refl _⟩

private theorem authenticate_advances {event : Authentication.Event} (h : s.authenticate app library event = some t) :
    Advances app library s t := by
  obtain ⟨authentication, ha, rfl⟩ := Option.map_eq_some_iff.mp h
  exact ⟨.refl _, Machine.reaches_step ha, .refl _⟩

private theorem manage_advances {event : PoolManager.Event} (h : s.manage app event = some t) : Advances app library s t := by
  obtain ⟨pools, hp, rfl⟩ := Option.map_eq_some_iff.mp h
  exact ⟨.refl _, .refl _, Machine.reaches_step hp⟩

private theorem arrived_advances (s : State) (inbound : Inbound) : Advances app library s (arrived app s inbound) :=
  ⟨Machine.reaches_step (e := .arrive inbound) rfl, .refl _, .refl _⟩

private theorem deliver_advances {j : Nat} (h : s.deliver app i j = some t) : Advances app library s t := by
  rw [State.deliver] at h
  split at h
  · exact hear_advances h
  · exact hear_advances h
  · exact hear_advances h
  · cases h
    exact .refl s

private theorem dropFuture_advances (h : s.dropFuture app library i = some t) : Advances app library s t := by
  rw [State.dropFuture] at h
  split at h
  · exact authenticate_advances h
  · obtain ⟨j, -, h⟩ := Option.bind_eq_some_iff.mp h
    exact manage_advances h
  · obtain ⟨j, -, h⟩ := Option.bind_eq_some_iff.mp h
    exact manage_advances h
  · cases h
    exact .refl s

private theorem Steps.advances {e : Event} (h : Steps app library s e t) : Advances app library s t := by
  cases h with
  | arrived inbound _ => exact arrived_advances s inbound
  | started _ h => exact (arrived_advances s _).trans (authenticate_advances h)
  | authenticate _ h => exact authenticate_advances h
  | authenticated _ hu h => exact (authenticate_advances hu).trans (hear_advances h)
  | read h _ => exact hear_advances h
  | refused hu _ _ h => exact (hear_advances hu).trans (hear_advances h)
  | acquiring hu _ _ h =>
    have hadvances : Advances app library s _ := (hear_advances hu).trans (manage_advances h)
    exact ⟨hadvances.gateway, hadvances.authentication, hadvances.pools⟩
  | pool _ _ hu h => exact (manage_advances hu).trans (deliver_advances h)
  | returned _ _ _ h =>
    have hadvances : Advances app library s _ := manage_advances h
    exact ⟨hadvances.gateway, hadvances.authentication, hadvances.pools⟩
  | elapsed hu h => exact (dropFuture_advances hu).trans (hear_advances h)
  | abandoned hu h => exact (dropFuture_advances hu).trans (hear_advances h)
  | checked h => exact hear_advances h
  | maintained _ h => exact manage_advances h
  | swept now => exact ⟨Machine.reaches_step (e := .sweep now) rfl, .refl _, .refl _⟩

theorem run_advances {events : List Event} (h : (machine app library).run (start app) events = some s) :
    Advances app library (start app) s :=
  Machine.run_invariant (I := Advances app library (start app))
    (fun _ _ _ hi hs => hi.trans (steps_of_step hs).advances) h (.refl _)

end Components
end Srh.Server
