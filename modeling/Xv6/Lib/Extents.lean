import Mathlib.Order.Interval.Set.Basic
import Mathlib.Data.List.Pairwise

/-!
# Lists of extents

An extent is a number of units of memory, each of `u` bytes, from an address on.  A list of extents
is separated if each ends before the next one begins, with something between them: nothing could be
joined.  `join` puts an extent in front of a list and joins it with the first one if they touch;
`front` and `back` cut an extent in two.  The lemmas say which bytes the lists cover.
-/

namespace Xv6.Lib

/-- `units` units from `addr` on. -/
@[ext] structure Extent where
  addr : ℕ
  units : ℕ
deriving DecidableEq

namespace Extent

variable {u k x : ℕ} {a b c : Extent} {l l₁ l₂ : List Extent}

/-- The address behind the last byte. -/
def lim (u : ℕ) (a : Extent) : ℕ := a.addr + u * a.units

/-- The bytes of an extent. -/
def bytes (u : ℕ) (a : Extent) : Set ℕ := Set.Ico a.addr (a.lim u)

/-- The bytes of a list of extents. -/
def cover (u : ℕ) (l : List Extent) : Set ℕ := {x | ∃ a ∈ l, x ∈ a.bytes u}

/-- Each extent ends before the next one begins. -/
def Separated (u : ℕ) (l : List Extent) : Prop := l.Pairwise fun a b => a.lim u < b.addr

lemma addr_le_lim : a.addr ≤ a.lim u := Nat.le_add_right _ _

lemma addr_add_le_lim (h : 0 < a.units) : a.addr + u ≤ a.lim u :=
  Nat.add_le_add_left (Nat.le_mul_of_pos_right u h) _

/-- The bounds of an extent from those of its bytes. -/
lemma bounds_of_bytes {lo hi : ℕ} (hu : 0 < u) (ha : 0 < a.units)
    (h : ∀ x ∈ a.bytes u, lo ≤ x ∧ x < hi) :
    lo ≤ a.addr ∧ a.lim u ≤ hi := by
  have hle : a.addr + u ≤ a.lim u := addr_add_le_lim ha
  have hfirst := h a.addr ⟨le_rfl, by omega⟩
  have hlast := h (a.lim u - 1) ⟨by omega, by omega⟩
  omega

/-- Of two extents without a common byte, one ends before the other begins. -/
lemma lim_le_or_lim_le (hu : 0 < u) (ha : 0 < a.units) (hb : 0 < b.units)
    (h : ∀ x ∈ a.bytes u, x ∉ b.bytes u) :
    a.lim u ≤ b.addr ∨ b.lim u ≤ a.addr := by
  have hale : a.addr + u ≤ a.lim u := addr_add_le_lim ha
  have hble : b.addr + u ≤ b.lim u := addr_add_le_lim hb
  by_contra hno
  have hmax := h (max a.addr b.addr) ⟨by omega, by omega⟩
  exact hmax ⟨by omega, by omega⟩

lemma mem_cover : x ∈ cover u l ↔ ∃ a ∈ l, x ∈ a.bytes u := Iff.rfl

@[simp] lemma mem_cover_cons : x ∈ cover u (a :: l) ↔ x ∈ a.bytes u ∨ x ∈ cover u l := by
  simp only [mem_cover, List.mem_cons, exists_eq_or_imp]

@[simp] lemma mem_cover_append : x ∈ cover u (l₁ ++ l₂) ↔ x ∈ cover u l₁ ∨ x ∈ cover u l₂ := by
  simp only [mem_cover, List.mem_append, or_and_right, exists_or]

/-- A separated list begins at its first extent. -/
lemma Separated.addr_lt (h : Separated u (a :: l)) (hb : b ∈ l) : a.addr < b.addr :=
  addr_le_lim.trans_lt ((List.pairwise_cons.1 h).1 b hb)

/-- An extent of a separated list has no byte with the others in common. -/
lemma Separated.not_mem_cover (h : Separated u (l₁ ++ a :: l₂)) (hx : x ∈ a.bytes u) :
    x ∉ cover u (l₁ ++ l₂) := by
  obtain ⟨-, h₂, h₁⟩ := List.pairwise_append.1 h
  rintro ⟨b, hb, hxb⟩
  rcases List.mem_append.1 hb with hb | hb
  · have := h₁ b hb a List.mem_cons_self
    exact absurd (hxb.2.trans this) (not_lt.2 hx.1)
  · have := (List.pairwise_cons.1 h₂).1 b hb
    exact absurd (hx.2.trans this) (not_lt.2 hxb.1)

/-- What a separated list covers without a gap is in one of its extents. -/
lemma Separated.exists_units_le (h : Separated u l) (hu : 0 < u) (ha : 0 < a.units)
    (hcover : ∀ x ∈ a.bytes u, x ∈ cover u l) :
    ∃ b ∈ l, a.units ≤ b.units := by
  have hale : a.addr + u ≤ a.lim u := addr_add_le_lim ha
  obtain ⟨b, hb, hba, hab⟩ := hcover a.addr ⟨le_rfl, by omega⟩
  refine ⟨b, hb, Nat.le_of_mul_le_mul_left ?_ hu⟩
  by_contra hgt
  rw [lim] at hab hale
  -- the address behind `b` is in `a` and so in another extent
  obtain ⟨c, hc, hcb, hbc⟩ := hcover (b.lim u) ⟨by rw [lim]; omega, by rw [lim, lim]; omega⟩
  obtain ⟨l₁, l₂, rfl⟩ := List.append_of_mem hb
  have hble : b.addr ≤ b.lim u := addr_le_lim
  rcases List.mem_append.1 hc with hc | hc
  · have := (List.pairwise_append.1 h).2.2 c hc b List.mem_cons_self
    omega
  · rcases List.mem_cons.1 hc with rfl | hc
    · exact absurd hbc (lt_irrefl _)
    · have := (List.pairwise_cons.1 (List.pairwise_append.1 h).2.1).1 c hc
      omega

/-- The bytes of a separated list are not below its first extent, and those of the others are behind
its end. -/
lemma Separated.le_of_mem_cover (h : Separated u (a :: l)) (hx : x ∈ cover u (a :: l)) :
    a.addr ≤ x ∧ (x ∈ a.bytes u ∨ a.lim u < x) := by
  rcases mem_cover_cons.1 hx with hx | ⟨b, hb, hx⟩
  · exact ⟨hx.1, .inl hx⟩
  · have hab := (List.pairwise_cons.1 h).1 b hb
    have hle : a.addr ≤ a.lim u := addr_le_lim
    exact ⟨(hle.trans hab.le).trans hx.1, .inr (hab.trans_le hx.1)⟩

/-- The first extents of two separated lists with the same bytes. -/
lemma Separated.head_le (hu : 0 < u) (h : Separated u (b :: l₂)) (ha : 0 < a.units)
    (hcover : ∀ x, x ∈ cover u (a :: l₁) ↔ x ∈ cover u (b :: l₂)) :
    b.addr ≤ a.addr ∧ (a.addr = b.addr → a.lim u ≤ b.lim u) := by
  have hale : a.addr + u ≤ a.lim u := addr_add_le_lim ha
  refine ⟨(h.le_of_mem_cover ((hcover _).1 (mem_cover_cons.2 (.inl ⟨le_rfl, by omega⟩)))).1,
    fun haddr => ?_⟩
  by_contra hlt
  -- the byte behind `b` is one of `a`
  have hble : b.addr ≤ b.lim u := addr_le_lim
  have hmem := (hcover (b.lim u)).1 (mem_cover_cons.2 (.inl ⟨by omega, by omega⟩))
  rcases (h.le_of_mem_cover hmem).2 with hin | hbehind
  · exact lt_irrefl _ hin.2
  · exact lt_irrefl _ hbehind

/-- A separated list is determined by its bytes. -/
lemma Separated.eq_of_cover (hu : 0 < u) (h₁ : Separated u l₁) (h₂ : Separated u l₂)
    (hpos₁ : ∀ a ∈ l₁, 0 < a.units) (hpos₂ : ∀ a ∈ l₂, 0 < a.units)
    (hcover : ∀ x, x ∈ cover u l₁ ↔ x ∈ cover u l₂) : l₁ = l₂ := by
  have hfirst : ∀ {a : Extent} {l : List Extent}, 0 < a.units → a.addr ∈ cover u (a :: l) :=
    fun {a l} ha =>
    have hle : a.addr + u ≤ a.lim u := addr_add_le_lim ha
    mem_cover_cons.2 (.inl ⟨le_rfl, by omega⟩)
  induction l₁ generalizing l₂ with
  | nil =>
      cases l₂ with
      | nil => rfl
      | cons b l₂ =>
          obtain ⟨c, hc, -⟩ := (hcover b.addr).2 (hfirst (hpos₂ b List.mem_cons_self))
          exact absurd hc List.not_mem_nil
  | cons a l₁ ih =>
      cases l₂ with
      | nil =>
          obtain ⟨c, hc, -⟩ := (hcover a.addr).1 (hfirst (hpos₁ a List.mem_cons_self))
          exact absurd hc List.not_mem_nil
      | cons b l₂ =>
          obtain ⟨hba, hlim⟩ := head_le hu h₂ (hpos₁ a List.mem_cons_self) hcover
          obtain ⟨hab, hlim'⟩ := head_le hu h₁ (hpos₂ b List.mem_cons_self) fun x => (hcover x).symm
          have haddr : a.addr = b.addr := le_antisymm hab hba
          have hunits : a.units = b.units := by
            have := le_antisymm (hlim haddr) (hlim' haddr.symm)
            rw [lim, lim, haddr] at this
            exact Nat.eq_of_mul_eq_mul_left hu (Nat.add_left_cancel this)
          obtain rfl : a = b := Extent.ext haddr hunits
          refine congrArg (a :: ·)
            (ih h₁.of_cons h₂.of_cons (fun c hc => hpos₁ c (List.mem_cons_of_mem a hc))
            (fun c hc => hpos₂ c (List.mem_cons_of_mem a hc)) fun x => ?_)
          have hrest : ∀ {l : List Extent}, Separated u (a :: l) → x ∈ a.bytes u → x ∉ cover u l :=
            fun {l} h =>
            not_mem_cover (show Separated u ([] ++ a :: l) from h)
          have hcons := hcover x
          rw [mem_cover_cons, mem_cover_cons] at hcons
          by_cases hx : x ∈ a.bytes u
          · exact iff_of_false (hrest h₁ hx) (hrest h₂ hx)
          · rwa [or_iff_right hx, or_iff_right hx] at hcons

/-- The extents behind `a` are those with a higher address. -/
lemma Separated.mem_right (h : Separated u (l₁ ++ a :: l₂)) (hb : b ∈ l₁ ++ a :: l₂)
    (hlt : a.addr < b.addr) : b ∈ l₂ := by
  rcases List.mem_append.1 hb with hb | hb
  · have hba := (List.pairwise_append.1 h).2.2 b hb a List.mem_cons_self
    have hle : b.addr ≤ b.lim u := addr_le_lim
    omega
  · rcases List.mem_cons.1 hb with rfl | hb
    · exact absurd hlt (lt_irrefl _)
    · exact hb

/-- Where an address belongs in a separated list. -/
lemma exists_split (l : List Extent) (h : Separated u l) (p : ℕ) :
    ∃ l₁ l₂, l = l₁ ++ l₂ ∧ (∀ a ∈ l₁, a.addr < p) ∧ ∀ a ∈ l₂, p ≤ a.addr := by
  induction l with
  | nil => exact ⟨[], [], rfl, by simp, by simp⟩
  | cons a l ih =>
      by_cases hap : a.addr < p
      · obtain ⟨l₁, l₂, rfl, hlt, hle⟩ := ih h.of_cons
        exact ⟨a :: l₁, l₂, rfl, List.forall_mem_cons.2 ⟨hap, hlt⟩, hle⟩
      · refine ⟨[], a :: l, rfl, by simp, List.forall_mem_cons.2 ⟨not_lt.1 hap, fun b hb => ?_⟩⟩
        exact (not_lt.1 hap).trans (h.addr_lt hb).le

/-! ## Joining -/

/-- Put an extent in front of a list, and join it with the first one if that begins where it
ends. -/
def join (u : ℕ) (a : Extent) : List Extent → List Extent
  | [] => [a]
  | b :: l => if a.lim u = b.addr then ⟨a.addr, a.units + b.units⟩ :: l else a :: b :: l

lemma lim_join (h : a.lim u = b.addr) : lim u ⟨a.addr, a.units + b.units⟩ = b.lim u := by
  rw [lim, Nat.mul_add, ← Nat.add_assoc]
  exact congrArg (· + u * b.units) h

@[simp] lemma mem_cover_join : x ∈ cover u (join u a l) ↔ x ∈ a.bytes u ∨ x ∈ cover u l := by
  cases l with
  | nil => rw [join, mem_cover_cons]
  | cons b l =>
      rw [join]
      split
      · rename_i hab
        have hle : b.addr ≤ b.lim u := addr_le_lim
        have hbytes : x ∈ bytes u ⟨a.addr, a.units + b.units⟩ ↔ x ∈ a.bytes u ∨ x ∈ b.bytes u := by
          have : a.addr ≤ a.lim u := addr_le_lim
          simp only [bytes, lim_join hab, Set.mem_Ico]
          omega
        rw [mem_cover_cons, mem_cover_cons, hbytes, or_assoc]
      · rw [mem_cover_cons]

lemma addr_le_of_mem_join (h : ∀ b ∈ l, a.addr ≤ b.addr) (hb : b ∈ join u a l) :
    a.addr ≤ b.addr := by
  cases l with
  | nil => rw [List.mem_singleton.1 hb]
  | cons c l =>
      rw [join] at hb
      split at hb
      · rcases List.mem_cons.1 hb with rfl | hb
        · exact le_rfl
        · exact h b (List.mem_cons_of_mem c hb)
      · rcases List.mem_cons.1 hb with rfl | hb
        · exact le_rfl
        · exact h b hb

/-- The joined list begins where the extent does. -/
lemma exists_join_eq_cons (u : ℕ) (a : Extent) (l : List Extent) : ∃ b l', join u a l = b :: l' ∧
    b.addr = a.addr := by
  cases l with
  | nil => exact ⟨a, [], rfl, rfl⟩
  | cons b l =>
      rw [join]
      split
      · exact ⟨_, _, rfl, rfl⟩
      · exact ⟨_, _, rfl, rfl⟩

lemma units_pos_of_mem_join (ha : 0 < a.units) (h : ∀ b ∈ l, 0 < b.units) (hb : b ∈ join u a l) :
    0 < b.units := by
  cases l with
  | nil => rwa [List.mem_singleton.1 hb]
  | cons c l =>
      rw [join] at hb
      split at hb
      · rcases List.mem_cons.1 hb with rfl | hb
        · exact Nat.add_pos_left ha _
        · exact h b (List.mem_cons_of_mem c hb)
      · rcases List.mem_cons.1 hb with rfl | hb
        · exact ha
        · exact h b hb

lemma Separated.join (h : Separated u l) (ha : ∀ b ∈ l, a.lim u ≤ b.addr) :
    Separated u (join u a l) := by
  cases l with
  | nil => exact List.pairwise_singleton _ _
  | cons b l =>
      obtain ⟨hb, hl⟩ := List.pairwise_cons.1 h
      rw [Extent.join]
      split
      · rename_i hab
        exact List.pairwise_cons.2 ⟨fun c hc => by rw [lim_join hab]; exact hb c hc, hl⟩
      · rename_i hab
        have hlt : a.lim u < b.addr := lt_of_le_of_ne (ha b List.mem_cons_self) hab
        refine List.pairwise_cons.2
          ⟨List.forall_mem_cons.2 ⟨hlt, fun c hc => hlt.trans (h.addr_lt hc)⟩, h⟩

/-! ## Cutting -/

/-- All units but the last `k`. -/
def front (a : Extent) (k : ℕ) : Extent := ⟨a.addr, a.units - k⟩

/-- The last `k` units. -/
def back (u : ℕ) (a : Extent) (k : ℕ) : Extent := ⟨a.addr + u * (a.units - k), k⟩

lemma lim_front : (a.front k).lim u = (a.back u k).addr := rfl

lemma lim_back (h : k ≤ a.units) : (a.back u k).lim u = a.lim u := by
  rw [lim, back, Nat.add_assoc, ← Nat.mul_add, Nat.sub_add_cancel h, lim]

lemma mem_bytes_cut (h : k ≤ a.units) : x ∈ a.bytes u ↔ x ∈ (a.front k).bytes u ∨ x ∈
    (a.back u k).bytes u := by
  have hle : (a.back u k).addr ≤ a.lim u := (lim_back h).symm ▸ addr_le_lim
  have hfront : a.addr ≤ (a.back u k).addr := Nat.le_add_right _ _
  rw [bytes, bytes, bytes, lim_back h, lim_front, Set.mem_Ico, Set.mem_Ico, Set.mem_Ico]
  change _ ↔ a.addr ≤ x ∧ x < (a.back u k).addr ∨ _
  omega

/-- An extent of a list is replaced by its front. -/
lemma Separated.front (h : Separated u (l₁ ++ a :: l₂)) (hk : k ≤ a.units) :
    Separated u (l₁ ++ a.front k :: l₂) := by
  obtain ⟨h₁, h₂, h₁₂⟩ := List.pairwise_append.1 h
  obtain ⟨ha, h₂⟩ := List.pairwise_cons.1 h₂
  have hle : (a.front k).lim u ≤ a.lim u := by
    rw [lim_front, ← lim_back hk]
    exact addr_le_lim
  refine List.pairwise_append.2 ⟨h₁, List.pairwise_cons.2 ⟨fun b hb => hle.trans_lt (ha b hb), h₂⟩,
    fun b hb c hc => ?_⟩
  rcases List.mem_cons.1 hc with rfl | hc
  · exact h₁₂ b hb a List.mem_cons_self
  · exact h₁₂ b hb c (List.mem_cons_of_mem a hc)

end Extent

end Xv6.Lib
