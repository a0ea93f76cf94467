import Srh.Domain.RateLimitRun

/-! The representation invariant of the limiter: the entry map and the two
recency indices are in bijection, and orders are positions in the run. -/
namespace Srh.Domain.RateLimit
open Srh.Lib

/-- The last access of the key is the i-th of the run and was made at time t. -/
def LastAt {K : Type} (history : List (K × Nat)) (key : K) (i t : Nat) : Prop :=
  history[i]? = some (key, t) ∧ ∀ j u, i < j → history[j]? ≠ some (key, u)

section LastAt
variable {K : Type} {history : List (K × Nat)} {key : K} {i t : Nat}

theorem LastAt.lt (h : LastAt history key i t) : i < history.length :=
  (List.getElem?_eq_some_iff.mp h.1).1

private theorem LastAt.snoc (history : List (K × Nat)) (key : K) (t : Nat) :
    LastAt (history ++ [(key, t)]) key history.length t := by
  refine ⟨by simp, fun j u hj he => ?_⟩
  have hlen := (List.getElem?_eq_some_iff.mp he).1
  simp only [List.length_append, List.length_singleton] at hlen
  omega

private theorem LastAt.snoc_of_ne {other : K} (h : LastAt history key i t) (hne : key ≠ other) (u : Nat) :
    LastAt (history ++ [(other, u)]) key i t := by
  refine ⟨by rw [List.getElem?_append_left h.lt]; exact h.1, fun j v hj he => ?_⟩
  rcases Nat.lt_or_ge j history.length with hlt | hge
  · rw [List.getElem?_append_left hlt] at he
    exact h.2 j v hj he
  · rw [List.getElem?_append_right hge] at he
    have hmem := List.mem_of_getElem? he
    simp only [List.mem_singleton, Prod.mk.injEq] at hmem
    exact hne hmem.1

end LastAt

section Links
variable {K : Type}

private theorem unlink_index (lru : Lru K) (b : Bucket K) (flag : Bool) (o : Nat) :
    ((lru.unlink b).index flag).get o =
      if flag = b.indebted ∧ o = b.order then none else (lru.index flag).get o := by
  rw [Lru.unlink]
  cases hb : b.indebted <;> cases flag <;> simp [Lru.index, FiniteMap.get_remove]

private theorem link_index (lru : Lru K) (b : Bucket K) (flag : Bool) (o : Nat) :
    ((lru.link b).1.index flag).get o =
      if flag = decide (b.balance < 0) ∧ o = lru.nextOrder then some b.key else (lru.index flag).get o := by
  rw [Lru.link]
  by_cases hb : b.balance < 0 <;> cases flag <;> simp [Lru.index, FiniteMap.get_insert, hb]

private theorem leaveDebt_index (lru : Lru K) (key : K) (b : Bucket K) (flag : Bool) (o : Nat) :
    ((leaveDebt lru key b).1.index flag).get o =
      if b.indebted = true ∧ 0 ≤ b.balance ∧ o = b.order then (if flag then none else some key)
      else (lru.index flag).get o := by
  rw [leaveDebt]
  by_cases hb : b.indebted = true ∧ 0 ≤ b.balance
  · cases flag <;> simp [Lru.index, FiniteMap.get_insert, FiniteMap.get_remove, hb]
  · have hb' : ¬ (b.indebted = true ∧ 0 ≤ b.balance ∧ o = b.order) := fun h => hb ⟨h.1, h.2.1⟩
    simp [hb, hb']

@[simp] theorem unlink_nextOrder (lru : Lru K) (b : Bucket K) : (lru.unlink b).nextOrder = lru.nextOrder := by
  rw [Lru.unlink]
  split <;> rfl

theorem link_nextOrder (lru : Lru K) (b : Bucket K) :
    (lru.link b).1.nextOrder = (lru.nextOrder + 1) % 2 ^ 64 := by
  rw [Lru.link]
  dsimp only
  split <;> rfl

theorem link_bucket (lru : Lru K) (b : Bucket K) :
    (lru.link b).2 = { b with order := lru.nextOrder, indebted := decide (b.balance < 0) } := by
  rw [Lru.link]
  dsimp only
  split <;> rfl

theorem leaveDebt_bucket (lru : Lru K) (key : K) (b : Bucket K) :
    (leaveDebt lru key b).2 = { b with indebted := b.indebted && decide (b.balance < 0) } := by
  rw [leaveDebt]
  split
  · next h =>
    rw [decide_eq_false (not_lt.mpr h.2), Bool.and_false]
  · next h =>
    have hsame : (b.indebted && decide (b.balance < 0)) = b.indebted := by
      cases hb : b.indebted with
      | false => rfl
      | true => simp [not_le.mp fun h0 => h ⟨hb, h0⟩]
    rw [hsame]

@[simp] theorem leaveDebt_nextOrder (lru : Lru K) (key : K) (b : Bucket K) :
    (leaveDebt lru key b).1.nextOrder = lru.nextOrder := by
  rw [leaveDebt]
  split <;> rfl

end Links

variable {K : Type} [DecidableEq K]

/-- Buckets carry their own key, a flag that agrees with the stored balance and
the position of their last access, and are filed exactly once. -/
structure Indexed (history : List (K × Nat)) (buckets : Buckets K) : Prop where
  key_eq : ∀ k b, buckets.entries.get k = some b → b.key = k
  indebted_iff : ∀ k b, buckets.entries.get k = some b → (b.indebted = true ↔ b.balance < 0)
  find_iff : ∀ flag o k, (buckets.lru.index flag).get o = some k ↔
    ∃ b, buckets.entries.get k = some b ∧ b.order = o ∧ b.indebted = flag
  last : ∀ k b, buckets.entries.get k = some b → LastAt history k b.order b.lastAccess

theorem indexed_empty (history : List (K × Nat)) :
    Indexed history ((State.empty : State K).buckets) := by
  refine ⟨?_, ?_, ?_, ?_⟩
  · intro k b h; cases h
  · intro k b h; cases h
  · intro flag o k
    constructor
    · intro h; cases flag <;> cases h
    · rintro ⟨b, h, _⟩; cases h
  · intro k b h; cases h

/-- Two retained buckets with one order are the same bucket. -/
theorem Indexed.order_inj {history : List (K × Nat)} {buckets : Buckets K} (h : Indexed history buckets)
    {j k : K} {b c : Bucket K} (hj : buckets.entries.get j = some b) (hk : buckets.entries.get k = some c)
    (ho : b.order = c.order) : j = k := by
  have hb := (h.last j b hj).1
  have hc := (h.last k c hk).1
  rw [ho, hc] at hb
  exact (Prod.mk.inj (Option.some.inj hb)).1.symm

section Steps
variable {history : List (K × Nat)} {buckets : Buckets K}

/-- The invariant reads the maps through their lookups only. -/
theorem Indexed.congr {other : Buckets K} (h : Indexed history buckets)
    (he : ∀ k, other.entries.get k = buckets.entries.get k)
    (hl : ∀ flag o, (other.lru.index flag).get o = (buckets.lru.index flag).get o) :
    Indexed history other := by
  refine ⟨?_, ?_, ?_, ?_⟩
  · intro k b hb; exact h.key_eq k b (he k ▸ hb)
  · intro k b hb; exact h.indebted_iff k b (he k ▸ hb)
  · intro flag o k; rw [hl, he]; exact h.find_iff flag o k
  · intro k b hb; exact h.last k b (he k ▸ hb)

/-- Removing a bucket from both structures. -/
theorem Indexed.drop (h : Indexed history buckets) {key : K} {b : Bucket K}
    (hk : buckets.entries.get key = some b) :
    Indexed history ⟨buckets.entries.remove key, buckets.lru.unlink b⟩ := by
  have kept {j : K} {c : Bucket K} (hj : (buckets.entries.remove key).get j = some c) :=
    FiniteMap.get_remove_some.mp hj
  refine ⟨fun j c hj => h.key_eq j c (kept hj).2, fun j c hj => h.indebted_iff j c (kept hj).2, ?_,
    fun j c hj => h.last j c (kept hj).2⟩
  intro flag o j
  rw [unlink_index]
  constructor
  · intro hf
    split at hf
    · cases hf
    · next hne =>
      obtain ⟨c, hc, ho, hfl⟩ := (h.find_iff flag o j).mp hf
      refine ⟨c, FiniteMap.get_remove_some.mpr ⟨?_, hc⟩, ho, hfl⟩
      rintro rfl
      rw [hk] at hc
      cases hc
      exact hne ⟨hfl.symm, ho.symm⟩
  · rintro ⟨c, hc, ho, hfl⟩
    obtain ⟨hne, hc⟩ := kept hc
    rw [if_neg, (h.find_iff flag o j).mpr ⟨c, hc, ho, hfl⟩]
    rintro ⟨_, ho'⟩
    exact hne (h.order_inj hc hk (ho.trans ho'))

/-- Filing a bucket for a key that has none, as the latest access. -/
theorem Indexed.file (h : Indexed history buckets) {key : K} {b : Bucket K} {now : Nat}
    (hk : buckets.entries.get key = none) (hkey : b.key = key) (hlast : b.lastAccess = now)
    (hn : buckets.lru.nextOrder = history.length) :
    Indexed (history ++ [(key, now)])
      ⟨buckets.entries.insert key (buckets.lru.link b).2, (buckets.lru.link b).1⟩ := by
  have filed {j : K} {c : Bucket K} (hj : (buckets.entries.insert key (buckets.lru.link b).2).get j = some c) :=
    FiniteMap.get_insert_some.mp hj
  rw [link_bucket] at filed ⊢
  refine ⟨?_, ?_, ?_, ?_⟩
  · intro j c hj
    rcases filed hj with ⟨rfl, rfl⟩ | ⟨_, hc⟩
    · exact hkey
    · exact h.key_eq j c hc
  · intro j c hj
    rcases filed hj with ⟨rfl, rfl⟩ | ⟨_, hc⟩
    · exact decide_eq_true_iff
    · exact h.indebted_iff j c hc
  · intro flag o j
    rw [link_index]
    constructor
    · intro hf
      split at hf
      · next he =>
        cases hf
        exact ⟨_, by rw [hkey]; exact FiniteMap.get_insert_self .., he.2.symm, he.1.symm⟩
      · obtain ⟨c, hc, ho, hfl⟩ := (h.find_iff flag o j).mp hf
        refine ⟨c, FiniteMap.get_insert_some.mpr (.inr ⟨?_, hc⟩), ho, hfl⟩
        rintro rfl
        rw [hk] at hc
        cases hc
    · rintro ⟨c, hc, ho, hfl⟩
      rcases filed hc with ⟨rfl, rfl⟩ | ⟨_, hc⟩
      · rw [if_pos ⟨hfl.symm, ho.symm⟩, hkey]
      · rw [if_neg, (h.find_iff flag o j).mpr ⟨c, hc, ho, hfl⟩]
        rintro ⟨_, ho'⟩
        have hlt := (h.last j c hc).lt
        omega
  · intro j c hj
    rcases filed hj with ⟨rfl, rfl⟩ | ⟨hne, hc⟩
    · rw [hn, hlast]
      exact LastAt.snoc history j now
    · exact (h.last j c hc).snoc_of_ne hne now

/-- Refilling in place and moving a repaid bucket between the indices. -/
theorem Indexed.refile (h : Indexed history buckets) {key : K} {b c : Bucket K}
    (hk : buckets.entries.get key = some b) (hb : 0 ≤ b.balance → 0 ≤ c.balance)
    (hc : c = { b with balance := c.balance, updated := c.updated }) :
    Indexed history ⟨buckets.entries.insert key (leaveDebt buckets.lru key c).2,
      (leaveDebt buckets.lru key c).1⟩ := by
  have hflag : c.indebted = true ↔ b.balance < 0 := by rw [hc]; exact h.indebted_iff key b hk
  have hsame : c.key = b.key ∧ c.order = b.order ∧ c.lastAccess = b.lastAccess ∧ c.indebted = b.indebted := by
    rw [hc]
    exact ⟨rfl, rfl, rfl, rfl⟩
  rw [leaveDebt_bucket]
  refine ⟨?_, ?_, ?_, ?_⟩
  · intro j d hj
    rcases FiniteMap.get_insert_some.mp hj with ⟨rfl, rfl⟩ | ⟨_, hd⟩
    · exact hsame.1.trans (h.key_eq j b hk)
    · exact h.key_eq j d hd
  · intro j d hj
    rcases FiniteMap.get_insert_some.mp hj with ⟨rfl, rfl⟩ | ⟨_, hd⟩
    · rw [Bool.and_eq_true, decide_eq_true_iff, hflag]
      exact ⟨fun h => h.2, fun hlt => ⟨not_le.mp fun h0 => absurd (hb h0) (not_le.mpr hlt), hlt⟩⟩
    · exact h.indebted_iff j d hd
  · intro flag o j
    rw [leaveDebt_index]
    constructor
    · intro hf
      split at hf
      · next hl =>
        cases flag with
        | true => cases hf
        | false =>
          cases hf
          exact ⟨_, FiniteMap.get_insert_self .., hl.2.2.symm, by simp [not_lt.mpr hl.2.1]⟩
      · next hl =>
        obtain ⟨d, hd, ho, hfl⟩ := (h.find_iff flag o j).mp hf
        by_cases hj : j = key
        · subst hj
          rw [hk] at hd
          cases hd
          refine ⟨_, FiniteMap.get_insert_self .., hsame.2.1.trans ho, ?_⟩
          cases hi : c.indebted with
          | false => simp [← hfl, ← hsame.2.2.2, hi]
          | true =>
            have hneg : c.balance < 0 := not_le.mp fun h0 => hl ⟨hi, h0, (hsame.2.1.trans ho).symm⟩
            simp [← hfl, ← hsame.2.2.2, hi, hneg]
        · exact ⟨d, FiniteMap.get_insert_some.mpr (.inr ⟨hj, hd⟩), ho, hfl⟩
    · rintro ⟨d, hd, ho, hfl⟩
      rcases FiniteMap.get_insert_some.mp hd with ⟨rfl, rfl⟩ | ⟨hne, hd⟩
      · have ho' : o = c.order := ho.symm
        by_cases hl : c.indebted = true ∧ 0 ≤ c.balance ∧ o = c.order
        · rw [if_pos hl, ← hfl]
          simp [not_lt.mpr hl.2.1]
        · rw [if_neg hl]
          refine (h.find_iff flag o j).mpr ⟨b, hk, hsame.2.1.symm.trans ho, ?_⟩
          rw [← hfl, ← hsame.2.2.2]
          cases hi : c.indebted with
          | false => rfl
          | true => simp [not_le.mp fun h0 => hl ⟨hi, h0, ho'⟩]
      · rw [if_neg, (h.find_iff flag o j).mpr ⟨d, hd, ho, hfl⟩]
        rintro ⟨_, _, ho'⟩
        exact hne (h.order_inj hd hk (ho.trans (ho'.trans hsame.2.1)))
  · intro j d hj
    rcases FiniteMap.get_insert_some.mp hj with ⟨rfl, rfl⟩ | ⟨_, hd⟩
    · rw [show (LastAt history j c.order c.lastAccess) = LastAt history j b.order b.lastAccess by
        rw [hsame.2.1, hsame.2.2.1]]
      exact h.last j b hk
    · exact h.last j d hd

end Steps

end Srh.Domain.RateLimit
