import Xv6.Log.Install

/-!
# Crash atomicity of transactions

A transaction first copies its blocks into the log area, while the header on disk is empty
(`Logging`), and the write of the header commits it.  So the disks a transaction goes
through recover to the old contents until the header is written, and to the new contents
from then on; this is `runTrans_spec`, from which the theorem about crashes follows.
-/

namespace Xv6

open Lib BlockState

/-- The contents after a transaction: its updates applied in order. -/
def applyTrans (t : Trans) (V : ℕ → Block) : ℕ → Block :=
  t.foldl (fun V u => Function.update V u.1 (u.2 (V u.1))) V

/-- The contents after several transactions. -/
def applyAll (ts : List Trans) (V : ℕ → Block) : ℕ → Block :=
  ts.foldl (fun V t => applyTrans t V) V

/-- Has one of these writes been to the header block? -/
def headWritten (g : Geometry) (ws : List (ℕ × Block)) : Bool := ws.any fun w => w.1 == g.start

/-- The state inside a transaction that started on the contents `L` and has `m` blocks in the
log: `V` is what the transaction sees, and what it will commit. -/
structure Logging (g : Geometry) (L V : ℕ → Block) (k : BlockState) (m : ℕ) : Prop where
  rest : AtRest g k
  busy : k.log.busy = true
  count : k.log.lh.n = m
  le_logsize : m ≤ LOGSIZE
  lt_size : m < g.size
  recovers : Recovers g L k.disk 0
  home : ∀ i < m, g.Home (k.log.lh.sector i)
  lt_disksize : ∀ i < m, k.log.lh.sector i < g.disksize
  inj : ∀ i < m, ∀ j < m, k.log.lh.sector i = k.log.lh.sector j → i = j
  logged : ∀ i < m, k.disk (g.start + i + 1) = V (k.log.lh.sector i)
  cached : ∀ i < m, ∃ j, (k.buf j).dev = 1 ∧ (k.buf j).sector = k.log.lh.sector i ∧
    (k.buf j).dirty = true ∧ (k.buf j).data = V (k.log.lh.sector i)
  dirty : ∀ j, (k.buf j).dirty = true → ∃ i < m, (k.buf j).sector = k.log.lh.sector i
  other : ∀ s, g.Home s → (∀ i < m, k.log.lh.sector i ≠ s) → L s = V s

/-- A run that has written log blocks only. -/
def RanLog (g : Geometry) (k k' : BlockState) : Prop :=
  ∃ ws, k'.writes = k.writes ++ ws ∧ k'.disk = applyWrites ws k.disk ∧
    (∀ w ∈ ws, g.start < w.1 ∧ w.1 < g.start + g.size)

section Update

variable {g : Geometry} {L V : ℕ → Block} {k k' k₁ k₂ : BlockState} {m s : ℕ} {b : BufId}

lemma RanLog.refl (hw : k'.writes = k.writes) (hd : k'.disk = k.disk) : RanLog g k k' :=
  ⟨[], by simpa using hw, by simpa using hd, by simp⟩

lemma RanLog.trans (h : RanLog g k k₁) (h' : RanLog g k₁ k₂) : RanLog g k k₂ := by
  obtain ⟨ws, hw, hd, hb⟩ := h
  obtain ⟨vs, hw', hd', hb'⟩ := h'
  refine ⟨ws ++ vs, by rw [hw', hw, List.append_assoc], by rw [hd', hd, applyWrites_append], ?_⟩
  intro w hmem
  rcases List.mem_append.1 hmem with hmem | hmem
  · exact hb w hmem
  · exact hb' w hmem

/-- The position that `logWrite` picks holds the sector already or is the next free one. -/
lemma slot_spec {lh : LogHeader} (h : lh.n = m) (s : ℕ) :
    (lh.slot s < m ∧ lh.sector (lh.slot s) = s) ∨
      (lh.slot s = m ∧ ∀ i < m, lh.sector i ≠ s) := by
  unfold LogHeader.slot
  rw [h, Int.toNat_natCast]
  cases hf : (List.range m).find? fun i => lh.sector i == s with
  | some i =>
      have hi := List.find?_some hf
      have hmem := List.mem_of_find?_eq_some hf
      exact Or.inl ⟨by simpa using hmem, by simpa using hi⟩
  | none =>
      refine Or.inr ⟨rfl, fun i hi hs => ?_⟩
      have := List.find?_eq_none.1 hf i (by simpa using hi)
      simp [hs] at this

/-- The buffer of a sector outside of the log shows what the transaction has written. -/
lemma Logging.bread_data (h : Logging g L V k m) (hs : g.Home s) (hb : Bread k s b k₁) :
    (k₁.buf b).data = V s := by
  by_cases hd : (k.buf b).dirty = true
  · obtain ⟨hdev, hsec, hdata⟩ := hb.hit hd
    obtain ⟨i, hi, his⟩ := h.dirty b hd
    obtain ⟨j, hjdev, hjs, -, hjdata⟩ := h.cached i hi
    have hjb : j = b := h.rest.coh.uniq j b hjdev hdev (by rw [hjs, his])
    rw [hdata, ← hjb, hjdata, ← his, hsec]
  · have hd' : (k.buf b).dirty = false := by simpa using hd
    have hnot : ∀ i < m, k.log.lh.sector i ≠ s := by
      intro i hi his
      obtain ⟨j, hjdev, hjs, hjd, -⟩ := h.cached i hi
      have hjb : j = b := by
        by_contra hne
        have hj₁ : k₁.buf j = k.buf j := hb.sameBut.buf j hne
        exact hne (hb.coh.uniq j b (by rw [hj₁, hjdev]) hb.dev (by rw [hj₁, hjs, his, hb.sector]))
      rw [hjb] at hjd
      exact hd hjd
    rw [hb.clean (hb.dirty.trans hd'), ← h.other s hs hnot]
    exact h.recovers.rest s hs (by simp)

/-- The log after a block of sector `s` has gone to position `i` of it. -/
def Log.append (log : Log) (i s : ℕ) : Log :=
  { log with lh := {
      n := if (i : ℤ) = log.lh.n then log.lh.n + 1 else log.lh.n
      sector := Function.update log.lh.sector i s } }

/-- `logWrite` of a held buffer writes its data to the log block of its position and makes it
dirty, or stops before it has written anything. -/
lemma logWrite_spec (hcoh : Coherent k) (hbusy : (k.buf b).busy = true)
    (hdev : (k.buf b).dev = 1) (hs : (k.buf b).sector = s) (hcount : k.log.lh.n = m)
    (hclean : ∀ j, j ≠ b → (k.buf j).dirty = true → g.Home (k.buf j).sector)
    (hhome : g.Home s) (hstart : k.log.start = g.start) (hsize : k.log.size = g.size) :
    Wp (logWrite b)
      (fun _ k' => m < LOGSIZE ∧ m + 1 < g.size ∧ Coherent k' ∧
        k'.log = k.log.append (k.log.lh.slot s) s ∧ k'.disksize = k.disksize ∧
        k'.disk = Function.update k.disk (g.start + k.log.lh.slot s + 1) (k.buf b).data ∧
        k'.writes = k.writes ++ [(g.start + k.log.lh.slot s + 1, (k.buf b).data)] ∧
        k'.buf b = { k.buf b with dirty := true } ∧
        (∀ j, j ≠ b → (k.buf j).dirty = true ∨ (k'.buf j).dirty = true → k'.buf j = k.buf j) ∧
        (∀ j, j ≠ b → (k.buf j).busy = false → (k'.buf j).busy = false))
      (fun _ k' => k'.disk = k.disk ∧ k'.writes = k.writes) k := by
  unfold logWrite
  refine Wp.of_bind (Wp.of_ok rfl ?_)
  split
  · exact Wp.of_error rfl ⟨rfl, rfl⟩
  rename_i hfit
  split
  · exact Wp.of_error rfl ⟨rfl, rfl⟩
  rw [not_or, hcount, hsize] at hfit
  have hm : m < LOGSIZE := by omega
  have hm' : m + 1 < g.size := by omega
  have hslot : k.log.lh.slot s ≤ m := by
    rcases slot_spec hcount s with h | h
    · exact h.1.le
    · exact h.1.le
  rw [hs, hdev, hstart]
  refine Wp.of_bind (Wp.of_ok rfl (Wp.of_bind ?_))
  refine (bread_spec (hcoh.modifyLog _) _).mono ?_ (fun _ _ he => ⟨he.1, he.2.1⟩)
  intro lb k₁ hl
  have hlb : lb ≠ b := by
    rintro rfl
    exact absurd (hl.idle : (k.buf lb).busy = false) (by simp [hbusy])
  have hb₁ : k₁.buf b = k.buf b := hl.sameBut.buf b hlb.symm
  obtain ⟨hlclean, -⟩ := hl.not_dirty (by
    intro j hj hjs
    have hjs' : (k.buf j).sector = g.start + k.log.lh.slot s + 1 := hjs
    by_cases hjb : j = b
    · rw [hjb, hs] at hjs'
      exact Recovers.home_ne_block hhome (by omega) hjs'.symm
    · exact Recovers.home_ne_block (hclean j hjb hj) (by omega) hjs'.symm)
  refine Wp.of_bind (Wp.of_ok rfl (Wp.of_bind (Wp.of_ok rfl ?_)))
  rw [hb₁]
  have hcoh₂ := hl.coh.setData hl.busy hl.dev (k.buf b).data
  obtain ⟨k₃, hrun₃, hcoh₃, hsame₃, hdisk₃, hwr₃, hbuf₃⟩ :=
    bwrite_spec (i := lb) (s := g.start + k.log.lh.slot s + 1) (d := (k.buf b).data) hcoh₂
      (by simpa using hl.busy) (by simpa using hl.dev) (by simpa using hl.sector) (by simp)
  refine Wp.of_bind (Wp.of_ok hrun₃ ?_)
  obtain ⟨k₄, hrun₄, hcoh₄, hsame₄, hdisk₄, hwr₄, hbuf₄⟩ :=
    brelse_spec (i := lb) hcoh₃ (by rw [hbuf₃]) (by rw [hbuf₃])
      (fun _ => by rw [hbuf₃, hdisk₃]; simp)
  refine Wp.of_bind (Wp.of_ok hrun₄ (Wp.of_bind (Wp.of_ok rfl (Wp.of_ok rfl ?_))))
  have hlog₄ : k₄.log = { k.log with lh := { k.log.lh with
      sector := Function.update k.log.lh.sector (k.log.lh.slot s) s } } := by
    rw [hsame₄.log, hsame₃.log, setBuf_log, hl.sameBut.log]
  have hother : ∀ j, j ≠ lb → k₄.buf j = k.buf j := by
    intro j hj
    rw [hsame₄.buf j hj, hsame₃.buf j hj, setBuf_buf_of_ne hj, hl.sameBut.buf j hj]
  have hb₄ : k₄.buf b = k.buf b := hother b hlb.symm
  refine ⟨hm, hm', ?_, ?_, ?_, ?_, ?_, ?_, ?_, ?_⟩
  · refine (hcoh₄.modifyLog _).setBuf (by simpa [hb₄] using hdev) ?_ ?_ ?_ ?_
    · simpa [hb₄] using (hcoh.inUse b hdev).1
    · exact (hcoh₄.inUse b (by rw [hb₄, hdev])).2
    · intro j hj hjdev
      exact hcoh₄.sector_ne (by rw [hb₄, hdev]) hj hjdev
    · intro hd
      exact absurd hd (by simp)
  · simp [hlog₄, Log.append]
  · change k₄.disksize = k.disksize
    rw [hsame₄.disksize, hsame₃.disksize, setBuf_disksize, hl.sameBut.disksize]
  · change k₄.disk = _
    rw [hdisk₄, hdisk₃, setBuf_disk, hl.disk]
  · change k₄.writes = _
    rw [hwr₄, hwr₃, setBuf_writes, hl.writes]
  · simp [hb₄]
  · intro j hj hdirty
    rw [setBuf_buf_of_ne hj] at hdirty ⊢
    change (k.buf j).dirty = true ∨ (k₄.buf j).dirty = true at hdirty
    change k₄.buf j = k.buf j
    by_cases hjl : j = lb
    · subst hjl
      have h₁ : (k.buf j).dirty = false := hlclean
      have h₂ : (k₄.buf j).dirty = false := by rw [hbuf₄, hbuf₃]
      simp [h₁, h₂] at hdirty
    · exact hother j hjl
  · intro j hj hjb
    rw [setBuf_buf_of_ne hj]
    change (k₄.buf j).busy = false
    by_cases hjl : j = lb
    · rw [hjl, hbuf₄]
    · rw [hother j hjl]
      exact hjb

/-- The number of logged blocks after one more update. -/
def Log.newCount (log : Log) (m s : ℕ) : ℕ := if log.lh.slot s = m then m + 1 else m

lemma append_count (h : k.log.lh.n = m) :
    (k.log.append (k.log.lh.slot s) s).lh.n = (k.log.newCount m s : ℕ) := by
  unfold Log.append Log.newCount
  rw [h]
  by_cases hs : k.log.lh.slot s = m
  · simp [hs]
  · have : (k.log.lh.slot s : ℤ) ≠ m := by exact_mod_cast hs
    simp [hs, this]

/-- A position of the log after one more update is the one that was written, or one that held
another sector before. -/
lemma append_sector (h : k.log.lh.n = m)
    (hinj : ∀ i < m, ∀ j < m, k.log.lh.sector i = k.log.lh.sector j → i = j)
    {i : ℕ} (hi : i < k.log.newCount m s) :
    (i = k.log.lh.slot s ∧ (k.log.append (k.log.lh.slot s) s).lh.sector i = s) ∨
      (i ≠ k.log.lh.slot s ∧ i < m ∧ k.log.lh.sector i ≠ s ∧
        (k.log.append (k.log.lh.slot s) s).lh.sector i = k.log.lh.sector i) := by
  by_cases his : i = k.log.lh.slot s
  · exact Or.inl ⟨his, by simp [Log.append, his]⟩
  · refine Or.inr ⟨his, ?_, ?_, by simp [Log.append, his]⟩
    · unfold Log.newCount at hi
      split at hi <;> omega
    · intro hsec
      rcases slot_spec h s with ⟨hlt, hslot⟩ | ⟨heq, hnot⟩
      · refine his (hinj i ?_ _ hlt (by rw [hsec, hslot]))
        unfold Log.newCount at hi
        split at hi <;> omega
      · refine hnot i ?_ hsec
        unfold Log.newCount at hi
        split at hi <;> omega

lemma slot_lt_newCount (h : k.log.lh.n = m) : k.log.lh.slot s < k.log.newCount m s := by
  unfold Log.newCount
  rcases slot_spec h s with ⟨hlt, -⟩ | ⟨heq, -⟩
  · rw [if_neg (by omega)]
    exact hlt
  · rw [if_pos heq]
    omega

/-- The positions in use keep their sectors. -/
lemma append_sector_of_lt (h : k.log.lh.n = m) {i : ℕ} (hi : i < m) :
    (k.log.append (k.log.lh.slot s) s).lh.sector i = k.log.lh.sector i := by
  by_cases his : i = k.log.lh.slot s
  · rcases slot_spec h s with ⟨-, hsec⟩ | ⟨heq, -⟩
    · rw [his]
      simp [Log.append, hsec]
    · omega
  · simp [Log.append, his]

lemma le_newCount (log : Log) (m s : ℕ) : m ≤ log.newCount m s := by
  unfold Log.newCount
  split <;> omega

/-- The invariant of a transaction after an update of sector `s` to `x`. -/
lemma Logging.update (h : Logging g L V k m) (hs : g.Home s) (hsd : s < g.disksize) {x : Block}
    (hm : m < LOGSIZE) (hm' : m + 1 < g.size) (hrest : AtRest g k')
    (hlog : k'.log = k.log.append (k.log.lh.slot s) s)
    (hdisk : k'.disk = Function.update k.disk (g.start + k.log.lh.slot s + 1) x)
    (hold : (k.buf b).dirty = true → (k.buf b).sector = s)
    (hb : k'.buf b = ⟨false, true, true, 1, s, x⟩)
    (hother : ∀ j, j ≠ b → (k.buf j).dirty = true ∨ (k'.buf j).dirty = true →
      k'.buf j = k.buf j) :
    Logging g L (Function.update V s x) k' (k.log.newCount m s) := by
  have hslot : k.log.lh.slot s ≤ m := by
    rcases slot_spec h.count s with h' | h'
    · exact h'.1.le
    · exact h'.1.le
  have hnew : k.log.newCount m s ≤ m + 1 := by
    unfold Log.newCount
    split <;> omega
  have hcase := fun {i : ℕ} (hi : i < k.log.newCount m s) => append_sector h.count h.inj hi
  refine ⟨hrest, by rw [hlog]; exact h.busy, by rw [hlog]; exact append_count h.count, by omega,
    by omega, ?_, ?_, ?_, ?_, ?_, ?_, ?_, ?_⟩
  · rw [hdisk]
    exact h.recovers.write_block (by omega) (by omega)
  · intro i hi
    rw [hlog]
    rcases hcase hi with ⟨-, hsec⟩ | ⟨-, him, -, hsec⟩
    · rwa [hsec]
    · rw [hsec]
      exact h.home i him
  · intro i hi
    rw [hlog]
    rcases hcase hi with ⟨-, hsec⟩ | ⟨-, him, -, hsec⟩
    · rwa [hsec]
    · rw [hsec]
      exact h.lt_disksize i him
  · intro i hi j hj hij
    rw [hlog] at hij
    rcases hcase hi with ⟨rfl, hsi⟩ | ⟨hni, him, hnsi, hsi⟩ <;>
      rcases hcase hj with ⟨rfl, hsj⟩ | ⟨hnj, hjm, hnsj, hsj⟩
    · rfl
    · exact absurd (by rw [← hsj, ← hij, hsi]) hnsj
    · exact absurd (by rw [← hsi, hij, hsj]) hnsi
    · exact h.inj i him j hjm (by rw [← hsi, ← hsj, hij])
  · intro i hi
    rw [hlog, hdisk]
    rcases hcase hi with ⟨rfl, hsec⟩ | ⟨hni, him, hnsi, hsec⟩
    · rw [hsec, Function.update_self, Function.update_self]
    · rw [hsec, Function.update_of_ne (by omega), Function.update_of_ne hnsi]
      exact h.logged i him
  · intro i hi
    rw [hlog]
    rcases hcase hi with ⟨-, hsec⟩ | ⟨-, him, hnsi, hsec⟩
    · exact ⟨b, by rw [hb], by rw [hb, hsec], by rw [hb], by rw [hb, hsec]; simp⟩
    · obtain ⟨j, hjdev, hjs, hjd, hjdata⟩ := h.cached i him
      have hjb : j ≠ b := by
        rintro rfl
        exact hnsi (by rw [← hjs, hold hjd])
      have hj' := hother j hjb (Or.inl hjd)
      rw [hsec]
      exact ⟨j, by rw [hj', hjdev], by rw [hj', hjs], by rw [hj', hjd],
        by rw [hj', hjdata, Function.update_of_ne hnsi]⟩
  · intro j hj
    rw [hlog]
    by_cases hjb : j = b
    · refine ⟨k.log.lh.slot s, slot_lt_newCount h.count, ?_⟩
      rw [hjb, hb]
      simp [Log.append]
    · have hj' := hother j hjb (Or.inr hj)
      rw [hj'] at hj ⊢
      obtain ⟨i, hi, his⟩ := h.dirty j hj
      exact ⟨i, hi.trans_le (le_newCount _ _ _), by rw [his, append_sector_of_lt h.count hi]⟩
  · intro t ht hnot
    rw [hlog] at hnot
    have hts : t ≠ s := by
      rintro rfl
      exact hnot _ (slot_lt_newCount h.count) (by simp [Log.append])
    rw [Function.update_of_ne hts]
    refine h.other t ht (fun i hi hit => hnot i (hi.trans_le (le_newCount _ _ _)) ?_)
    rw [append_sector_of_lt h.count hi, hit]

/-- One update of a transaction: it logs the new block, or stops without having committed. -/
lemma logUpdate_spec (h : Logging g L V k m) (hs : g.Home s) (f : Block → Block) :
    Wp (logUpdate s f)
      (fun _ k' => (∃ m', Logging g L (Function.update V s (f (V s))) k' m') ∧ RanLog g k k')
      (fun _ k' => RanLog g k k') k := by
  unfold logUpdate
  apply Wp.of_bind
  refine (bread_spec h.rest.coh s).mono ?_ (fun _ _ he => RanLog.refl he.2.1 he.1)
  intro b k₁ hb
  have hsd : s < g.disksize := by
    have := (hb.coh.inUse b hb.dev).2
    rwa [hb.sector, hb.sameBut.disksize, h.rest.disksize] at this
  refine Wp.of_bind (Wp.of_ok rfl (Wp.of_bind (Wp.of_ok rfl ?_)))
  rw [h.bread_data hs hb]
  have hlog₁ : k₁.log = k.log := hb.sameBut.log
  have hdirty_home : ∀ j, (k.buf j).dirty = true → g.Home (k.buf j).sector := by
    intro j hj
    obtain ⟨i, hi, his⟩ := h.dirty j hj
    rw [his]
    exact h.home i hi
  have hother₂ : ∀ j, j ≠ b →
      (k₁.setBuf b { k₁.buf b with data := f (V s) }).buf j = k.buf j := by
    intro j hj
    rw [setBuf_buf_of_ne hj, hb.sameBut.buf j hj]
  apply Wp.of_bind
  refine (logWrite_spec (g := g) (s := s) (m := m) (hb.coh.setData hb.busy hb.dev (f (V s)))
    (by simpa using hb.busy) (by simpa using hb.dev) (by simpa using hb.sector)
    (by rw [setBuf_log, hlog₁, h.count])
    (fun j hj hjd => by rw [hother₂ j hj] at hjd ⊢; exact hdirty_home j hjd) hs
    (by rw [setBuf_log, hlog₁, h.rest.start]) (by rw [setBuf_log, hlog₁, h.rest.size])).mono ?_
    (fun _ _ he => RanLog.refl (he.2.trans hb.writes) (he.1.trans hb.disk))
  rintro _ k₃ ⟨hm, hm', hcoh₃, hlog₃, hsize₃, hdisk₃, hwr₃, hbuf₃, hsame₃, hidle₃⟩
  rw [setBuf_log, hlog₁] at hlog₃ hdisk₃ hwr₃
  rw [setBuf_disk, hb.disk] at hdisk₃
  rw [setBuf_writes, hb.writes] at hwr₃
  rw [setBuf_buf_self] at hdisk₃ hwr₃ hbuf₃
  obtain ⟨k₄, hrun₄, hcoh₄, hsame₄, hdisk₄, hwr₄, hbuf₄⟩ :=
    brelse_spec (i := b) hcoh₃ (by rw [hbuf₃]; exact hb.busy) (by rw [hbuf₃]; exact hb.dev)
      (fun hd => absurd hd (by simp [hbuf₃]))
  refine Wp.of_ok hrun₄ ?_
  have hlog₄ : k₄.log = k.log.append (k.log.lh.slot s) s := hsame₄.log.trans hlog₃
  have hrest : AtRest g k₄ := by
    refine ⟨hcoh₄, by rw [hlog₄]; exact h.rest.start, by rw [hlog₄]; exact h.rest.size,
      by rw [hlog₄]; exact h.rest.dev, ?_, fun j => ?_⟩
    · rw [hsame₄.disksize, hsize₃, setBuf_disksize, hb.sameBut.disksize, h.rest.disksize]
    · by_cases hj : j = b
      · rw [hj, hbuf₄]
      · rw [hsame₄.buf j hj]
        exact hidle₃ j hj (by rw [hother₂ j hj]; exact h.rest.idle j)
  have hslot : k.log.lh.slot s ≤ m := by
    rcases slot_spec h.count s with h' | h'
    · exact h'.1.le
    · exact h'.1.le
  refine ⟨⟨_, h.update hs hsd hm hm' hrest hlog₄ (hdisk₄.trans hdisk₃)
    (fun hd => (hb.hit hd).2.1) ?_ ?_⟩, [(g.start + k.log.lh.slot s + 1, f (V s))], ?_, ?_, ?_⟩
  · rw [hbuf₄, hbuf₃]
    simp [hb.dev, hb.sector, (hb.coh.inUse b hb.dev).1]
  · intro j hj hd
    rw [hsame₄.buf j hj] at hd ⊢
    have := hsame₃ j hj (by rw [hother₂ j hj]; exact hd)
    rw [this, hother₂ j hj]
  · rw [hwr₄, hwr₃]
  · rw [hdisk₄, hdisk₃]
    rfl
  · intro w hw
    obtain rfl : w = (g.start + k.log.lh.slot s + 1, f (V s)) := by simpa using hw
    constructor <;> simp only <;> omega

/-- The updates of a transaction. -/
lemma logUpdates_spec (t : Trans) (h : Logging g L V k m) (ht : ∀ u ∈ t, g.Home u.1) :
    Wp (logUpdates t)
      (fun _ k' => (∃ m', Logging g L (applyTrans t V) k' m') ∧ RanLog g k k')
      (fun _ k' => RanLog g k k') k := by
  induction t generalizing k V m with
  | nil => exact Wp.of_pure ⟨⟨m, h⟩, RanLog.refl rfl rfl⟩
  | cons u t ih =>
      obtain ⟨s, f⟩ := u
      apply Wp.of_bind
      refine (logUpdate_spec h (ht (s, f) (by simp)) f).mono ?_ (fun _ _ he => he)
      rintro _ k₁ ⟨⟨m', h₁⟩, hran⟩
      refine (ih h₁ (fun u hu => ht u (List.mem_cons_of_mem _ hu))).mono ?_ ?_
      · rintro _ k₂ ⟨h₂, hran₂⟩
        exact ⟨h₂, hran.trans hran₂⟩
      · intro _ k₂ hran₂
        exact hran.trans hran₂

end Update

/-! ## Committing -/

/-- What a run of a transaction from `L` to `V` has done: until the header is written the disk
recovers to `L`, and from then on to `V`. -/
def RanTrans (g : Geometry) (L V : ℕ → Block) (k k' : BlockState) : Prop :=
  ∃ ws, k'.writes = k.writes ++ ws ∧ k'.disk = applyWrites ws k.disk ∧
    ∀ p, p <+: ws → RecoversTo g (if headWritten g p then V else L) (applyWrites p k.disk)

section Commit

variable {g : Geometry} {L V : ℕ → Block} {k k' k₁ k₂ : BlockState} {m : ℕ}

lemma headWritten_of_log {ws : List (ℕ × Block)} (h : ∀ w ∈ ws, g.start < w.1) :
    headWritten g ws = false := by
  simp only [headWritten, List.any_eq_false, beq_iff_eq]
  intro w hw heq
  exact absurd (h w hw) (by omega)

/-- Log writes alone keep the old contents. -/
lemma RanLog.ranTrans (h : RanLog g k k') (hrec : Recovers g L k.disk 0) :
    RanTrans g L V k k' := by
  obtain ⟨ws, hw, hd, hb⟩ := h
  have halong : Along (fun d => Recovers g L d 0) k.disk ws :=
    Along.of_step hrec fun w hw d hd => hd.write_block (hb w hw).1 (hb w hw).2
  refine ⟨ws, hw, hd, fun p hp => ?_⟩
  rw [headWritten_of_log (fun w hw => (hb w (hp.subset hw)).1)]
  exact ⟨0, halong p hp⟩

/-- Log writes, then a header write, then a run that keeps the new contents. -/
lemma RanLog.then_commit {c : Block} (h : RanLog g k k₁) (hrec : Recovers g L k.disk 0)
    (hw : k₂.writes = k₁.writes ++ [(g.start, c)])
    (hd : k₂.disk = Function.update k₁.disk g.start c) (hran : Ran (RecoversTo g V) k₂ k') :
    RanTrans g L V k k' := by
  obtain ⟨ws, hw₁, hd₁, hp₁⟩ := h.ranTrans (V := V) hrec
  obtain ⟨vs, hw', hd', halong⟩ := hran
  have happly : k₂.disk = applyWrites (ws ++ [(g.start, c)]) k.disk := by
    rw [hd, hd₁, applyWrites_append]
    rfl
  refine ⟨ws ++ [(g.start, c)] ++ vs, by rw [hw', hw, hw₁]; simp,
    by rw [hd', happly, ← applyWrites_append], ?_⟩
  intro p hp
  rcases List.prefix_or_prefix_of_prefix hp (List.prefix_append (ws ++ [(g.start, c)]) vs) with
    hp' | ⟨q, rfl⟩
  · rcases List.prefix_concat_iff.1 hp' with rfl | hp'
    · have hhead : headWritten g (ws ++ [(g.start, c)]) = true := by simp [headWritten]
      rw [hhead, ← happly]
      exact halong.start
    · exact hp₁ p hp'
  · have hhead : headWritten g (ws ++ [(g.start, c)] ++ q) = true := by simp [headWritten]
    rw [hhead, applyWrites_append, ← happly]
    exact halong q ((List.prefix_append_right_inj _).1 hp)

/-- The write of the header commits: the disk now recovers to what the transaction saw. -/
lemma Logging.commit (h : Logging g L V k m) (hrest : AtRest g k') (hlog : k'.log = k.log)
    (hdirty : SameDirty k k') {c : Block}
    (hdisk : k'.disk = Function.update k.disk g.start (k.log.lh.encode c)) :
    Installing g V k' m 0 := by
  have hsec : ∀ i < m, headSector (k.log.lh.encode c) i = k.log.lh.sector i := by
    intro i hi
    have := h.lt_disksize i hi
    have := g.disksize_le
    exact headSector_encode h.count h.le_logsize hi (by omega)
  have hstart : k'.disk g.start = k.log.lh.encode c := by rw [hdisk, Function.update_self]
  have hblock : ∀ i < m, k'.disk (g.start + i + 1) = k.disk (g.start + i + 1) := by
    intro i _
    rw [hdisk]
    exact Function.update_of_ne (by omega) _ _
  refine ⟨hrest, by rw [hlog]; exact h.count, ?_, ?_, by simp, ?_⟩
  · intro i hi
    rw [hlog, hstart, hsec i hi]
  · refine ⟨?_, h.le_logsize, h.lt_size, ?_, ?_, ?_, ?_, ?_⟩
    · rw [hstart]
      exact headCount_encode h.count h.le_logsize
    · intro i hi
      rw [hstart, hsec i hi]
      exact h.home i hi
    · intro i hi
      rw [hstart, hsec i hi]
      exact h.lt_disksize i hi
    · intro i hi j hj hij
      rw [hstart, hsec i hi, hsec j hj] at hij
      exact h.inj i hi j hj hij
    · intro i hi
      rw [hstart, hsec i hi, hblock i hi]
      exact h.logged i hi
    · intro s hs hnot
      rw [hstart] at hnot
      rw [hdisk, Function.update_of_ne (Recovers.home_ne_start hs).symm,
        ← h.other s hs (fun i hi => by rw [← hsec i hi]; exact hnot i hi)]
      exact h.recovers.rest s hs (by simp)
  · intro j hj
    have hsame := hdirty j (Or.inr hj)
    rw [hsame] at hj
    obtain ⟨i, hi, his⟩ := h.dirty j hj
    exact ⟨i, by omega, hi, by rw [hsame, hlog, his]⟩

/-- A whole transaction from `L`: if it returns, the disk holds the new contents and the log is
empty again, and in any case the disks on the way are as `RanTrans` says. -/
lemma runTrans_spec (t : Trans) (h : Quiet g L k) (ht : ∀ u ∈ t, g.Home u.1) :
    Wp (runTrans t)
      (fun _ k' => Quiet g (applyTrans t L) k' ∧ RanTrans g L (applyTrans t L) k k')
      (fun _ k' => RanTrans g L (applyTrans t L) k k') k := by
  have hbegin : beginTrans k = .ok () { k with log := { k.log with busy := true } } := by
    simp [beginTrans, h.free]
  have hstart : Logging g L L { k with log := { k.log with busy := true } } 0 :=
    ⟨h.rest.modifyLog rfl rfl rfl, rfl, h.count, by simp, g.size_pos, h.recovers, by simp, by simp,
      by simp, by simp, by simp, fun j hj => absurd hj (by simp [h.clean j]), fun _ _ _ => rfl⟩
  unfold runTrans
  refine Wp.of_bind (Wp.of_ok hbegin (Wp.of_bind ?_))
  refine (logUpdates_spec t hstart ht).mono ?_ (fun _ _ he => he.ranTrans h.recovers)
  rintro _ k₁ ⟨⟨m, h₁⟩, hran₁⟩
  have hran : RanLog g k k₁ := hran₁
  unfold commitTrans
  refine Wp.of_bind (Wp.of_ok rfl ?_)
  split
  · apply Wp.of_bind
    refine (writeHead_spec h₁.rest (fun j hj => ?_)).mono ?_ ?_
    · obtain ⟨i, hi, his⟩ := h₁.dirty j hj
      rw [his]
      exact h₁.home i hi
    · rintro _ k₂ ⟨hrest₂, hlog₂, hdirty₂, c, hdisk₂, hwr₂⟩
      have h₂ := h₁.commit hrest₂ hlog₂ hdirty₂ hdisk₂
      unfold installTrans
      refine Wp.of_bind (Wp.of_bind (Wp.of_ok rfl ?_))
      rw [h₂.count, Int.toNat_natCast, List.range_eq_range']
      refine (installLoop_spec m h₂ (by omega)).mono ?_ ?_
      · rintro _ k₃ ⟨h₃, hlog₃, hran₃⟩
        rw [← bind_assoc]
        apply Wp.of_bind
        refine (erase_spec h₃).mono ?_ (fun _ _ he => he.elim)
        rintro _ k₄ ⟨hrest₄, hlog₄, hclean₄, hrec₄, hran₄⟩
        refine Wp.of_ok rfl ⟨⟨hrest₄.modifyLog rfl rfl rfl, rfl, by simp [hlog₄], hclean₄, hrec₄⟩,
          ?_⟩
        exact hran.then_commit h.recovers hwr₂ hdisk₂ (hran₃.trans hran₄)
      · rintro _ k₃ ⟨hran₃, -⟩
        exact hran.then_commit h.recovers hwr₂ hdisk₂ hran₃
    · rintro _ k₂ ⟨hd, hw, -⟩
      exact (hran.trans (RanLog.refl hw hd)).ranTrans h.recovers
  · -- nothing was logged, so the transaction changed nothing
    rename_i hzero
    obtain rfl : m = 0 := by
      have := h₁.count
      omega
    have hrec : Recovers g (applyTrans t L) k₁.disk 0 :=
      Recovers.of_empty (by simpa using h₁.recovers.count) fun s hs => by
        rw [← h₁.other s hs (by simp)]
        exact h₁.recovers.rest s hs (by simp)
    refine Wp.of_ok rfl ⟨⟨h₁.rest.modifyLog rfl rfl rfl, rfl, h₁.count, fun j => ?_, hrec⟩,
      hran.ranTrans h.recovers⟩
    by_contra hne
    obtain ⟨i, hi, -⟩ := h₁.dirty j (by simpa using hne)
    omega

lemma runAll_spec (ts : List Trans) (h : Quiet g L k) (hts : ∀ t ∈ ts, ∀ u ∈ t, g.Home u.1)
    (hrun : runAll ts k = .ok () k') : Quiet g (applyAll ts L) k' := by
  induction ts generalizing k L with
  | nil =>
      obtain rfl : k = k' := by
        have : (EStateM.Result.ok () k : EStateM.Result Stop BlockState Unit) = .ok () k' := hrun
        simpa using this
      exact h
  | cons t ts ih =>
      have hspec := runTrans_spec t h (hts t (by simp))
      have hbind : (runTrans t >>= fun _ => runAll ts) k = .ok () k' := hrun
      cases hx : runTrans t k with
      | ok a k₁ =>
          obtain ⟨h₁, -⟩ := hspec.ok hx
          refine ih h₁ (fun t' ht' => hts t' (List.mem_cons_of_mem _ ht')) ?_
          simpa [bind, EStateM.bind, hx] using hbind
      | error e k₁ => simp [bind, EStateM.bind, hx] at hbind

end Commit

/-! ## Crashes -/

/-- The machine after it has come up on the disk `d` and recovered. -/
def mount (g : Geometry) (d : ℕ → Block) : BlockState := endState recoverFromLog (boot g d)

/-- The sector writes of a transaction that starts in `k`. -/
def transWrites (t : Trans) (k : BlockState) : List (ℕ × Block) :=
  (endState (runTrans t) k).writes.drop k.writes.length

/-- The disk after a recovery of `d` that crashed after `c` sector writes. -/
def crashInRecovery (g : Geometry) (d : ℕ → Block) (c : ℕ) : ℕ → Block :=
  applyWrites ((mount g d).writes.take c) d

section Crash

variable {g : Geometry} {V d : ℕ → Block}

lemma mount_spec (h : RecoversTo g V d) :
    recoverFromLog (boot g d) = .ok () (mount g d) ∧ Quiet g V (mount g d) ∧
      Ran (RecoversTo g V) (boot g d) (mount g d) := by
  obtain ⟨a, k, hrun, hq, hran⟩ := (recoverFromLog_spec h).returns
  have hmount : mount g d = k := by simp [mount, endState, hrun]
  rw [hmount]
  exact ⟨hrun, hq, hran⟩

/-- A crash in recovery leaves a disk that recovers to the same contents. -/
lemma RecoversTo.crashInRecovery (h : RecoversTo g V d) (c : ℕ) :
    RecoversTo g V (crashInRecovery g d c) := by
  obtain ⟨-, -, ws, hw, -, halong⟩ := mount_spec h
  have hws : (mount g d).writes = ws := by simpa [boot] using hw
  rw [Xv6.crashInRecovery, hws]
  exact halong.take c

lemma RecoversTo.crashesInRecovery (cs : List ℕ) (h : RecoversTo g V d) :
    RecoversTo g V (cs.foldl (Xv6.crashInRecovery g) d) := by
  induction cs generalizing d with
  | nil => exact h
  | cons c cs ih => exact ih (h.crashInRecovery c)

/-- **Crash atomicity of the redo log.**  The disk starts with an empty log.  The transactions
`ts` have returned from `commitTrans`, and the machine crashes when `c` sector writes of the
transaction `t` have reached the disk; recovery itself crashes any number of times, after any
numbers of writes `cs`.  Then the next recovery completes, the log is empty, and outside of
the log area the disk holds the contents after `ts`, or after `ts` and `t` if the header of
`t` had been written. -/
theorem crash_atomicity (g : Geometry) (d : ℕ → Block) (hd : headCount (d g.start) = 0)
    (ts : List Trans) (t : Trans) (hts : ∀ t' ∈ ts, ∀ u ∈ t', g.Home u.1)
    (ht : ∀ u ∈ t, g.Home u.1) (k₁ : BlockState) (hrun : runAll ts (mount g d) = .ok () k₁)
    (c : ℕ) (cs : List ℕ) :
    ∃ k, recoverFromLog (boot g (cs.foldl (crashInRecovery g)
        (applyWrites ((transWrites t k₁).take c) k₁.disk))) = .ok () k ∧
      headCount (k.disk g.start) = 0 ∧
      ∀ s, g.Home s → k.disk s =
        applyAll (if headWritten g ((transWrites t k₁).take c) then ts ++ [t] else ts) d s := by
  have hstart : RecoversTo g d d := ⟨0, Recovers.of_empty hd fun _ _ => rfl⟩
  have hq : Quiet g (applyAll ts d) k₁ := runAll_spec ts (mount_spec hstart).2.1 hts hrun
  obtain ⟨ws, hw, -, hp⟩ : RanTrans g (applyAll ts d) (applyTrans t (applyAll ts d)) k₁
      (endState (runTrans t) k₁) :=
    ((runTrans_spec t hq ht).mono (fun _ _ h => h.2) (fun _ _ h => h)).endState
  have hws : transWrites t k₁ = ws := by simp [transWrites, hw]
  rw [hws]
  have hrec := RecoversTo.crashesInRecovery cs (hp _ ( List.take_prefix c ws))
  obtain ⟨hok, hquiet, -⟩ := mount_spec hrec
  refine ⟨_, hok, hquiet.recovers.count, fun s hs => ?_⟩
  rw [hquiet.recovers.rest s hs (by simp)]
  split
  · simp [applyAll]
  · rfl

/-- On a disk of six sectors, with two log blocks, one transaction has overwritten a block; the
next one overwrites another block and crashes after its second write, the one of the header,
and then the recovery crashes after its first write. -/
theorem crash_atomicity_two_updates :
    let g : Geometry := ⟨2, 3, 6, by decide, by decide, by decide⟩
    let d : ℕ → Block := fun _ _ => 0
    let ts : List Trans := [[(1, fun _ _ => 7)]]
    let t : Trans := [(0, fun b => b.setByte 0 9)]
    let k₁ := endState (runAll ts) (mount g d)
    headWritten g ((transWrites t k₁).take 2) = true ∧
      ∃ k, recoverFromLog (boot g ([1].foldl (crashInRecovery g)
          (applyWrites ((transWrites t k₁).take 2) k₁.disk))) = .ok () k ∧
        headCount (k.disk g.start) = 0 ∧
        ∀ s, g.Home s → k.disk s = applyAll (if headWritten g ((transWrites t k₁).take 2)
          then ts ++ [t] else ts) d s := by
  intro g d ts t k₁
  refine ⟨by decide +kernel, ?_⟩
  exact crash_atomicity g d (by decide +kernel) ts t (by simp [ts, g, Geometry.Home])
    (by simp [t, g, Geometry.Home]) k₁ (eq_ok_of_returned (by decide +kernel)) 2 [1]

end Crash

end Xv6
