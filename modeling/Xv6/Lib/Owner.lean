import Mathlib.Data.Finset.Card
import Mathlib.Logic.Function.Basic

/-!
# Exclusive owners of the members of a pool

A pool of resources (the blocks of a disk, the pages of memory) has a marking of those in use,
and places that can hold one resource each.  `Owns own used pool pend` says that no resource
is held at two places, that what is held is marked, and that what is marked is held somewhere
or is pending, that is, in the list `pend`: taken from the pool and not yet put into a place.
-/

namespace Xv6.Lib

variable {ι β : Type}

/-- `own` gives each place the resource that it holds, if any. -/
structure Owns (own : ι → Option β) (used pool : β → Prop) (pend : List β) : Prop where
  inj : ∀ i j b, own i = some b → own j = some b → i = j
  held : ∀ i b, own i = some b → pool b ∧ used b
  exact : ∀ b, pool b → used b → b ∈ pend ∨ ∃ i, own i = some b
  pending : ∀ b ∈ pend, pool b ∧ used b ∧ ∀ i, own i ≠ some b
  nodup : pend.Nodup

namespace Owns

variable {own own' : ι → Option β} {used used' pool : β → Prop} {pend : List β} {b : β} {i : ι}

/-- Only what the places hold and what is marked counts. -/
lemma congr (h : Owns own used pool pend) (hown : ∀ i, own' i = own i)
    (hused : ∀ b, pool b → (used' b ↔ used b)) : Owns own' used' pool pend := by
  obtain rfl : own' = own := funext hown
  refine ⟨h.inj, fun i b hi => ?_, fun b hb hu => h.exact b hb ((hused b hb).1 hu), fun b hb => ?_,
    h.nodup⟩
  · obtain ⟨hp, hu⟩ := h.held i b hi
    exact ⟨hp, (hused b hp).2 hu⟩
  · obtain ⟨hp, hu, hno⟩ := h.pending b hb
    exact ⟨hp, (hused b hp).2 hu, hno⟩

/-- Take a free resource: it is marked and pending. -/
lemma take (h : Owns own used pool pend) (hb : pool b) (hfree : ¬ used b)
    (hused : ∀ c, pool c → (used' c ↔ used c ∨ c = b)) : Owns own used' pool (b :: pend) := by
  have hno : ∀ i, own i ≠ some b := fun i hi => hfree (h.held i b hi).2
  refine ⟨h.inj, fun i c hi => ?_, fun c hc hu => ?_, fun c hc => ?_, ?_⟩
  · obtain ⟨hp, hu⟩ := h.held i c hi
    exact ⟨hp, (hused c hp).2 (Or.inl hu)⟩
  · rcases (hused c hc).1 hu with hu | rfl
    · exact (h.exact c hc hu).imp_left (List.mem_cons_of_mem b)
    · exact Or.inl (by simp)
  · rcases List.mem_cons.1 hc with rfl | hc
    · exact ⟨hb, (hused c hb).2 (Or.inr rfl), hno⟩
    · obtain ⟨hp, hu, hn⟩ := h.pending c hc
      exact ⟨hp, (hused c hp).2 (Or.inl hu), hn⟩
  · exact List.nodup_cons.2 ⟨fun hc => hfree (h.pending b hc).2.1, h.nodup⟩

/-- Put a pending resource into an empty place. -/
lemma put (h : Owns own used pool (b :: pend)) (hi : own i = none) (hown : own' i = some b)
    (hother : ∀ j, j ≠ i → own' j = own j) : Owns own' used pool pend := by
  obtain ⟨hb, hu, hno⟩ := h.pending b (by simp)
  have hold : ∀ j c, own' j = some c → (j = i ∧ c = b) ∨ own j = some c := by
    intro j c hj
    by_cases hji : j = i
    · subst hji
      rw [hown] at hj
      exact Or.inl ⟨rfl, (Option.some.inj hj).symm⟩
    · rw [hother j hji] at hj
      exact Or.inr hj
  refine ⟨fun j k c hj hk => ?_, fun j c hj => ?_, fun c hc hcu => ?_, fun c hc => ?_, ?_⟩
  · rcases hold j c hj with ⟨rfl, rfl⟩ | hj
    · rcases hold k c hk with ⟨rfl, -⟩ | hk
      · rfl
      · exact absurd hk (hno k)
    · rcases hold k c hk with ⟨rfl, rfl⟩ | hk
      · exact absurd hj (hno j)
      · exact h.inj j k c hj hk
  · rcases hold j c hj with ⟨rfl, rfl⟩ | hj
    · exact ⟨hb, hu⟩
    · exact h.held j c hj
  · rcases h.exact c hc hcu with hc | ⟨j, hj⟩
    · rcases List.mem_cons.1 hc with rfl | hc
      · exact Or.inr ⟨i, hown⟩
      · exact Or.inl hc
    · refine Or.inr ⟨j, ?_⟩
      rw [hother j, hj]
      rintro rfl
      rw [hi] at hj
      exact absurd hj (by simp)
  · obtain ⟨hp, hcu, hn⟩ := h.pending c (List.mem_cons_of_mem b hc)
    refine ⟨hp, hcu, fun j hj => ?_⟩
    rcases hold j c hj with ⟨-, rfl⟩ | hj
    · exact (List.nodup_cons.1 h.nodup).1 hc
    · exact hn j hj
  · exact (List.nodup_cons.1 h.nodup).2

/-- Empty some places and unmark what they held. -/
lemma release (h : Owns own used pool pend) (gone : ι → Prop)
    (hgone : ∀ i, gone i → own' i = none) (hkeep : ∀ i, ¬ gone i → own' i = own i)
    (hused : ∀ b, pool b → (used' b ↔ used b ∧ ∀ i, gone i → own i ≠ some b)) :
    Owns own' used' pool pend := by
  have hold : ∀ i b, own' i = some b → ¬ gone i ∧ own i = some b := by
    intro i b hi
    by_cases hg : gone i
    · rw [hgone i hg] at hi
      exact absurd hi (by simp)
    · rw [hkeep i hg] at hi
      exact ⟨hg, hi⟩
  refine ⟨fun i j b hi hj => h.inj i j b (hold i b hi).2 (hold j b hj).2, fun i b hi => ?_,
    fun b hb hu => ?_, fun b hb => ?_, h.nodup⟩
  · obtain ⟨hg, hi⟩ := hold i b hi
    obtain ⟨hp, hu⟩ := h.held i b hi
    refine ⟨hp, (hused b hp).2 ⟨hu, fun j hj hjb => hg ?_⟩⟩
    rwa [h.inj i j b hi hjb]
  · obtain ⟨hu, hno⟩ := (hused b hb).1 hu
    refine (h.exact b hb hu).imp_right fun ⟨i, hi⟩ => ⟨i, ?_⟩
    rw [hkeep i fun hg => hno i hg hi, hi]
  · obtain ⟨hp, hu, hno⟩ := h.pending b hb
    exact ⟨hp, (hused b hp).2 ⟨hu, fun i _ => hno i⟩, fun i hi => hno i (hold i b hi).2⟩

/-- With nothing pending, a member of the pool is marked iff exactly one of the places holds
it, and unmarked iff none does. -/
lemma card_holders [DecidableEq β] (h : Owns own used pool []) (hb : pool b) (places : Finset ι)
    (hplaces : ∀ i, own i = some b → i ∈ places) :
    (used b ↔ (places.filter fun i => own i = some b).card = 1) ∧
      (¬ used b ↔ (places.filter fun i => own i = some b).card = 0) := by
  have hno : ¬ used b → (places.filter fun i => own i = some b).card = 0 := by
    intro hu
    rw [Finset.card_eq_zero, Finset.filter_eq_empty_iff]
    exact fun i _ hi => hu (h.held i b hi).2
  have hone : used b → (places.filter fun i => own i = some b).card = 1 := by
    intro hu
    obtain ⟨i, hi⟩ := (h.exact b hb hu).resolve_left (by simp)
    rw [Finset.card_eq_one]
    refine ⟨i, Finset.ext fun j => ?_⟩
    rw [Finset.mem_filter, Finset.mem_singleton]
    constructor
    · rintro ⟨-, hj⟩
      exact h.inj j i b hj hi
    · rintro rfl
      exact ⟨hplaces j hi, hi⟩
  refine ⟨⟨hone, fun hcard => ?_⟩, ⟨hno, fun hcard hu => ?_⟩⟩
  · by_contra hu
    rw [hno hu] at hcard
    exact absurd hcard (by simp)
  · rw [hone hu] at hcard
    exact absurd hcard (by simp)

end Owns

end Xv6.Lib
