import Xv6.Log.Recovery

/-!
# Installing a committed transaction

The second half of `commitTrans` and the whole of `recoverFromLog` are the same work: copy
the logged blocks home, then erase the header.  `Installing g V k n t` is the invariant of
the loop of `installTrans`, and `Ran` says what a piece of such a run has done to the disk:
every disk it went through recovers to `V`.
-/

namespace Xv6

open Lib BlockState

/-- The block layer works on the log of `g`, and nobody holds a buffer. -/
structure AtRest (g : Geometry) (k : BlockState) : Prop where
  coh : Coherent k
  start : k.log.start = g.start
  size : k.log.size = g.size
  dev : k.log.dev = 1
  disksize : k.disksize = g.disksize
  idle : ∀ i, (k.buf i).busy = false

/-- The writes of a run from `k` to `k'`, with `R` true of every disk on the way. -/
def Ran (R : (ℕ → Block) → Prop) (k k' : BlockState) : Prop :=
  ∃ ws, k'.writes = k.writes ++ ws ∧ k'.disk = applyWrites ws k.disk ∧ Along R k.disk ws

namespace Ran

variable {R : (ℕ → Block) → Prop} {k k₁ k₂ : BlockState}

lemma of_same (h : R k.disk) (hw : k₁.writes = k.writes) (hd : k₁.disk = k.disk) : Ran R k k₁ :=
  ⟨[], by simpa using hw, by simpa using hd, Along.nil h⟩

lemma of_write {s : ℕ} {b : Block} (h : R k.disk) (h' : R (Function.update k.disk s b))
    (hw : k₁.writes = k.writes ++ [(s, b)]) (hd : k₁.disk = Function.update k.disk s b) :
    Ran R k k₁ :=
  ⟨[(s, b)], hw, by simpa using hd, Along.single h h'⟩

lemma trans (h : Ran R k k₁) (h' : Ran R k₁ k₂) : Ran R k k₂ := by
  obtain ⟨ws, hw, hd, ha⟩ := h
  obtain ⟨vs, hw', hd', ha'⟩ := h'
  refine ⟨ws ++ vs, by rw [hw', hw, List.append_assoc], by rw [hd', hd, applyWrites_append], ?_⟩
  exact ha.append (hd ▸ ha')

end Ran

/-! ## The steps of a run at rest -/

section Steps

variable {g : Geometry} {k k' k₁ : BlockState} {i j : BufId} {s : ℕ}

/-- A `bread` can only get stuck at rest when every buffer is dirty. -/
lemma AtRest.bread (h : AtRest g k) (hs : s < g.disksize) :
    Wp (bread 1 s) (Bread k s)
      (fun _ k' => k'.disk = k.disk ∧ k'.writes = k.writes ∧ ∀ j, (k.buf j).dirty = true) k := by
  refine (bread_spec h.coh s).mono (fun _ _ hb => hb) ?_
  rintro _ k' ⟨hd, hw, hstuck | ⟨j, -, -, hj⟩ | hge⟩
  · exact ⟨hd, hw, fun j => (hstuck j).resolve_left (by simp [h.idle j])⟩
  · exact absurd hj (by simp [h.idle j])
  · rw [h.disksize] at hge
    omega

/-- A clean sector is read from the disk and is clean in the cache. -/
lemma Bread.not_dirty (h : Bread k s i k') (hs : ∀ j, (k.buf j).dirty = true →
    (k.buf j).sector ≠ s) : (k.buf i).dirty = false ∧ (k'.buf i).data = k.disk s := by
  have hi : (k.buf i).dirty = false := by
    by_contra hne
    have hd : (k.buf i).dirty = true := by simpa using hne
    exact hs i hd (h.hit hd).2.1
  exact ⟨hi, h.clean (h.dirty.trans hi)⟩

lemma AtRest.of_release (h : AtRest g k) (hcoh : Coherent k') (hlog : k'.log = k.log)
    (hsize : k'.disksize = k.disksize) (hbuf : ∀ j, j ≠ i → (k'.buf j).busy = (k.buf j).busy)
    (hi : (k'.buf i).busy = false) : AtRest g k' := by
  refine ⟨hcoh, by rw [hlog, h.start], by rw [hlog, h.size], by rw [hlog, h.dev],
    by rw [hsize, h.disksize], fun j => ?_⟩
  by_cases hji : j = i
  · rwa [hji]
  · rw [hbuf j hji]
    exact h.idle j

/-- The dirty buffers are the same in both states. -/
def SameDirty (k k' : BlockState) : Prop :=
  ∀ j, (k.buf j).dirty = true ∨ (k'.buf j).dirty = true → k'.buf j = k.buf j

lemma SameBut.sameDirty (h : SameBut k i k') (hi : (k.buf i).dirty = false)
    (hi' : (k'.buf i).dirty = false) : SameDirty k k' := by
  intro j hj
  by_cases hji : j = i
  · subst hji
    rcases hj with hj | hj
    · exact absurd hj (by simp [hi])
    · exact absurd hj (by simp [hi'])
  · exact h.buf j hji

/-- `writeHead` writes the in-memory header over the header block, and gets stuck only when
every buffer is dirty. -/
lemma writeHead_spec (h : AtRest g k)
    (hhome : ∀ j, (k.buf j).dirty = true → g.Home (k.buf j).sector) :
    Wp writeHead
      (fun _ k' => AtRest g k' ∧ k'.log = k.log ∧ SameDirty k k' ∧ ∃ b,
        k'.disk = Function.update k.disk g.start (k.log.lh.encode b) ∧
        k'.writes = k.writes ++ [(g.start, k.log.lh.encode b)])
      (fun _ k' => k'.disk = k.disk ∧ k'.writes = k.writes ∧ ∀ j, (k.buf j).dirty = true) k := by
  have hlt : g.start < g.disksize := by
    have := g.size_pos
    have := g.le_disksize
    omega
  unfold writeHead
  refine Wp.of_bind (Wp.of_ok rfl (Wp.of_bind ?_))
  rw [h.dev, h.start]
  refine (h.bread hlt).mono ?_ (fun _ _ he => he)
  intro i k₁ hb
  obtain ⟨hclean, -⟩ := hb.not_dirty (fun j hj hs =>
    Recovers.home_ne_start (hhome j hj) hs.symm)
  refine Wp.of_bind (Wp.of_ok rfl (Wp.of_bind (Wp.of_ok rfl ?_)))
  have hcoh₂ := hb.coh.setData hb.busy hb.dev (k₁.log.lh.encode (k₁.buf i).data)
  obtain ⟨k₃, hrun₃, hcoh₃, hsame₃, hdisk₃, hwr₃, hbuf₃⟩ :=
    bwrite_spec (i := i) (s := g.start) (d := k₁.log.lh.encode (k₁.buf i).data) hcoh₂
      (by simpa using hb.busy) (by simpa using hb.dev) (by simpa using hb.sector) (by simp)
  refine Wp.of_bind (Wp.of_ok hrun₃ ?_)
  obtain ⟨k₄, hrun₄, hcoh₄, hsame₄, hdisk₄, hwr₄, hbuf₄⟩ :=
    brelse_spec (i := i) hcoh₃ (by rw [hbuf₃]) (by rw [hbuf₃])
      (fun _ => by rw [hbuf₃, hdisk₃]; simp)
  refine Wp.of_ok hrun₄ ?_
  have hlog₄ : k₄.log = k.log := by
    rw [hsame₄.log, hsame₃.log, setBuf_log, hb.sameBut.log]
  have hother : ∀ j, j ≠ i → k₄.buf j = k.buf j := by
    intro j hj
    rw [hsame₄.buf j hj, hsame₃.buf j hj, setBuf_buf_of_ne hj, hb.sameBut.buf j hj]
  have hsize₄ : k₄.disksize = k.disksize := by
    rw [hsame₄.disksize, hsame₃.disksize, setBuf_disksize, hb.sameBut.disksize]
  have hfree : (k₄.buf i).dirty = false := by rw [hbuf₄, hbuf₃]
  refine ⟨h.of_release hcoh₄ hlog₄ hsize₄ (fun j hj => by rw [hother j hj]) (by rw [hbuf₄]),
    hlog₄, SameBut.sameDirty ⟨hlog₄, hsize₄, hother⟩ hclean hfree, (k₁.buf i).data, ?_, ?_⟩
  · rw [hdisk₄, hdisk₃, setBuf_disk, hb.disk, hb.sameBut.log]
  · rw [hwr₄, hwr₃, setBuf_writes, hb.writes, hb.sameBut.log]

/-- Copy a clean sector over another one, holding both buffers.  The copy gets stuck only when
some buffer is dirty, and only before it has written. -/
lemma copy_spec {a c : ℕ} (h : AtRest g k) (ha : a < g.disksize) (hc : c < g.disksize)
    (hne : a ≠ c) (hclean : ∀ j, (k.buf j).dirty = true → (k.buf j).sector ≠ a) :
    Wp (do
        let lbuf ← bread 1 a
        let dbuf ← bread 1 c
        let k ← get
        setData dbuf (k.buf lbuf).data
        bwrite dbuf
        brelse lbuf
        brelse dbuf)
      (fun _ k' => AtRest g k' ∧ k'.log = k.log ∧
        k'.disk = Function.update k.disk c (k.disk a) ∧
        k'.writes = k.writes ++ [(c, k.disk a)] ∧
        ∀ j, (k'.buf j).dirty = true → (k.buf j).dirty = true ∧
          (k'.buf j).sector = (k.buf j).sector ∧ (k.buf j).sector ≠ c)
      (fun _ k' => k'.disk = k.disk ∧ k'.writes = k.writes ∧ ∃ j, (k.buf j).dirty = true) k := by
  apply Wp.of_bind
  refine (h.bread ha).mono ?_ (fun _ _ he => ⟨he.1, he.2.1, ⟨0, by simp [NBUF]⟩, he.2.2 _⟩)
  intro lb k₁ hl
  obtain ⟨hlclean, hldata⟩ := hl.not_dirty hclean
  apply Wp.of_bind
  refine (bread_spec hl.coh c).mono ?_ ?_
  swap
  · -- the second `bread` gets stuck: some buffer other than `lb` must be dirty
    rintro e k₂ ⟨hd, hw, hall | ⟨j, -, hs, hj⟩ | hge⟩
    · obtain ⟨j, hj⟩ : ∃ j, j ≠ lb := by
        rcases eq_or_ne lb ⟨0, by simp [NBUF]⟩ with hlb | hlb
        · exact ⟨⟨1, by simp [NBUF]⟩, by rw [hlb]; exact Fin.ne_of_val_ne (by simp)⟩
        · exact ⟨_, hlb.symm⟩
      have hj' := hall j
      rw [hl.sameBut.buf j hj] at hj'
      exact ⟨by rw [hd, hl.disk], by rw [hw, hl.writes], j,
        hj'.resolve_left (by simp [h.idle j])⟩
    · by_cases hjl : j = lb
      · rw [hjl, hl.sector] at hs
        exact absurd hs hne
      · rw [hl.sameBut.buf j hjl] at hj
        exact absurd hj (by simp [h.idle j])
    · rw [hl.sameBut.disksize, h.disksize] at hge
      omega
  intro db k₂ hd
  have hdl : db ≠ lb := by
    rintro rfl
    exact absurd hd.idle (by simp [hl.busy])
  have hlb₂ : k₂.buf lb = k₁.buf lb := hd.sameBut.buf lb hdl.symm
  refine Wp.of_bind (Wp.of_ok rfl (Wp.of_bind (Wp.of_ok rfl ?_)))
  rw [hlb₂, hldata]
  have hcoh₃ := hd.coh.setData hd.busy hd.dev (k.disk a)
  obtain ⟨k₄, hrun₄, hcoh₄, hsame₄, hdisk₄, hwr₄, hbuf₄⟩ :=
    bwrite_spec (i := db) (s := c) (d := k.disk a) hcoh₃ (by simpa using hd.busy)
      (by simpa using hd.dev) (by simpa using hd.sector) (by simp)
  rw [setBuf_disk, hd.disk, hl.disk] at hdisk₄
  have hlb₄ : k₄.buf lb = k₁.buf lb := by
    rw [hsame₄.buf lb hdl.symm, setBuf_buf_of_ne hdl.symm, hlb₂]
  refine Wp.of_bind (Wp.of_ok hrun₄ ?_)
  obtain ⟨k₅, hrun₅, hcoh₅, hsame₅, hdisk₅, hwr₅, hbuf₅⟩ :=
    brelse_spec (i := lb) hcoh₄ (by rw [hlb₄, hl.busy]) (by rw [hlb₄, hl.dev]) (by
      intro _
      rw [hlb₄, hldata, hl.sector, hdisk₄, Function.update_of_ne hne])
  have hdb₅ : k₅.buf db = ⟨true, true, false, 1, c, k.disk a⟩ := by
    rw [hsame₅.buf db hdl, hbuf₄]
  refine Wp.of_bind (Wp.of_ok hrun₅ ?_)
  obtain ⟨k₆, hrun₆, hcoh₆, hsame₆, hdisk₆, hwr₆, hbuf₆⟩ :=
    brelse_spec (i := db) hcoh₅ (by rw [hdb₅]) (by rw [hdb₅])
      (by intro _; rw [hdb₅, hdisk₅, hdisk₄]; simp)
  refine Wp.of_ok hrun₆ ?_
  have hlog₆ : k₆.log = k.log := by
    rw [hsame₆.log, hsame₅.log, hsame₄.log, setBuf_log, hd.sameBut.log, hl.sameBut.log]
  have hsize₆ : k₆.disksize = k.disksize := by
    rw [hsame₆.disksize, hsame₅.disksize, hsame₄.disksize, setBuf_disksize, hd.sameBut.disksize,
      hl.sameBut.disksize]
  have hother : ∀ j, j ≠ db → j ≠ lb → k₆.buf j = k.buf j := by
    intro j hj hj'
    rw [hsame₆.buf j hj, hsame₅.buf j hj', hsame₄.buf j hj, setBuf_buf_of_ne hj,
      hd.sameBut.buf j hj, hl.sameBut.buf j hj']
  have hlb₆ : k₆.buf lb = { k₁.buf lb with busy := false } := by
    rw [hsame₆.buf lb hdl.symm, hbuf₅, hlb₄]
  refine ⟨⟨hcoh₆, by rw [hlog₆, h.start], by rw [hlog₆, h.size], by rw [hlog₆, h.dev],
    by rw [hsize₆, h.disksize], ?_⟩, hlog₆, by rw [hdisk₆, hdisk₅, hdisk₄],
    by rw [hwr₆, hwr₅, hwr₄, setBuf_writes, hd.writes, hl.writes], ?_⟩
  · intro j
    by_cases hjd : j = db
    · rw [hjd, hbuf₆]
    · by_cases hjl : j = lb
      · rw [hjl, hlb₆]
      · rw [hother j hjd hjl]
        exact h.idle j
  · intro j hj
    by_cases hjd : j = db
    · rw [hjd, hbuf₆, hdb₅] at hj
      exact absurd hj (by simp)
    · by_cases hjl : j = lb
      · rw [hjl, hlb₆] at hj
        exact absurd hj (by simp [hl.dirty.trans hlclean])
      · rw [hother j hjd hjl] at hj ⊢
        refine ⟨hj, rfl, fun hs => hjd ?_⟩
        -- a dirty buffer of the sector would be `db` itself
        have hjdev : (k.buf j).dev = 1 := by
          by_contra hdev
          exact absurd hj (by simp [(h.coh.unused j hdev).1])
        have hj₂ : k₂.buf j = k.buf j := by rw [hd.sameBut.buf j hjd, hl.sameBut.buf j hjl]
        exact hd.coh.uniq j db (by rw [hj₂, hjdev]) hd.dev (by rw [hj₂, hs, hd.sector])

end Steps

/-! ## The loop of `installTrans` -/

/-- The invariant of the loop before position `t`: the header on disk is the one in memory,
the positions before `t` are installed, and only blocks from `t` on are dirty. -/
structure Installing (g : Geometry) (V : ℕ → Block) (k : BlockState) (n t : ℕ) : Prop where
  rest : AtRest g k
  count : k.log.lh.n = n
  sector : ∀ i < n, k.log.lh.sector i = headSector (k.disk g.start) i
  recovers : Recovers g V k.disk n
  installed : ∀ i < t, k.disk (k.log.lh.sector i) = V (k.log.lh.sector i)
  dirty : ∀ j, (k.buf j).dirty = true → ∃ i, t ≤ i ∧ i < n ∧
    (k.buf j).sector = k.log.lh.sector i

section Loop

variable {g : Geometry} {V : ℕ → Block} {k k' : BlockState} {n t : ℕ}

lemma Installing.home (h : Installing g V k n t) {i : ℕ} (hi : i < n) :
    g.Home (k.log.lh.sector i) := by
  rw [h.sector i hi]
  exact h.recovers.home i hi

lemma Installing.dirty_home (h : Installing g V k n t) (j : BufId)
    (hj : (k.buf j).dirty = true) : g.Home (k.buf j).sector := by
  obtain ⟨i, -, hi, hs⟩ := h.dirty j hj
  rw [hs]
  exact h.home hi

/-- The log block of position `t` is in the cache or on the disk, and is what `V` has at the
home location. -/
lemma Installing.block_eq (h : Installing g V k n t) (ht : t < n) :
    k.disk (g.start + t + 1) = V (k.log.lh.sector t) := by
  rw [h.sector t ht]
  exact h.recovers.logged t ht

/-- The disk after the block of position `t` has been written home. -/
lemma Installing.write (h : Installing g V k n t) (ht : t < n) (hrest : AtRest g k')
    (hlog : k'.log = k.log)
    (hdisk : k'.disk = Function.update k.disk (k.log.lh.sector t) (V (k.log.lh.sector t)))
    (hdirty : ∀ j, (k'.buf j).dirty = true → (k.buf j).dirty = true ∧
      (k'.buf j).sector = (k.buf j).sector ∧ (k.buf j).sector ≠ k.log.lh.sector t) :
    Installing g V k' n (t + 1) := by
  have hstart : k'.disk g.start = k.disk g.start := by
    rw [hdisk]
    exact Function.update_of_ne (Recovers.home_ne_start (h.home ht)) _ _
  have hrec := h.recovers.write_install ht
  rw [h.recovers.logged t ht, ← h.sector t ht, ← hdisk] at hrec
  refine ⟨hrest, by rw [hlog]; exact h.count, ?_, hrec, ?_, ?_⟩
  · intro i hi
    rw [hlog, hstart]
    exact h.sector i hi
  · intro i hi
    rw [hlog, hdisk]
    by_cases hit : k.log.lh.sector i = k.log.lh.sector t
    · rw [hit, Function.update_self]
    · rw [Function.update_of_ne hit]
      refine h.installed i (lt_of_le_of_ne (by omega) ?_)
      rintro rfl
      exact hit rfl
  · intro j hj
    obtain ⟨hjd, hsec, hne⟩ := hdirty j hj
    obtain ⟨i, hti, hin, his⟩ := h.dirty j hjd
    refine ⟨i, lt_of_le_of_ne hti ?_, hin, by rw [hsec, his, hlog]⟩
    rintro rfl
    exact hne his

/-- The body of the loop writes one block home, or gets stuck before it has written. -/
lemma installBlock_spec (h : Installing g V k n t) (ht : t < n) :
    Wp (installBlock t)
      (fun _ k' => Installing g V k' n (t + 1) ∧ k'.log = k.log ∧ Ran (RecoversTo g V) k k' ∧
        ((∀ j, (k.buf j).dirty = false) → ∀ j, (k'.buf j).dirty = false))
      (fun _ k' => k'.disk = k.disk ∧ k'.writes = k.writes ∧ ∃ j, (k.buf j).dirty = true) k := by
  have hsize := h.recovers.lt_size
  have hle := g.le_disksize
  have hne : g.start + t + 1 ≠ k.log.lh.sector t := Recovers.home_ne_block (h.home ht) (by omega)
  have hlt : k.log.lh.sector t < g.disksize := by
    rw [h.sector t ht]
    exact h.recovers.lt_disksize t ht
  unfold installBlock
  refine Wp.of_bind (Wp.of_ok rfl ?_)
  rw [h.rest.dev, h.rest.start]
  refine (copy_spec h.rest (by omega) hlt hne ?_).mono ?_ (fun _ _ he => he)
  · intro j hj hs
    exact Recovers.home_ne_block (h.dirty_home j hj) (by omega) hs.symm
  rintro _ k' ⟨hrest, hlog, hdisk, hwr, hdirty⟩
  rw [h.block_eq ht] at hdisk hwr
  have hnext : Installing g V k' n (t + 1) := h.write ht hrest hlog hdisk hdirty
  refine ⟨hnext, hlog, Ran.of_write ⟨n, h.recovers⟩ ?_ hwr hdisk, ?_⟩
  · rw [← hdisk]
    exact ⟨n, hnext.recovers⟩
  · intro hall j
    by_contra hne'
    have hj : (k'.buf j).dirty = true := by simpa using hne'
    exact absurd (hdirty j hj).1 (by simp [hall j])

/-- The loop from position `t` on. -/
lemma installLoop_spec (m : ℕ) (h : Installing g V k n t) (hm : t + m = n) :
    Wp (installLoop (List.range' t m))
      (fun _ k' => Installing g V k' n n ∧ k'.log = k.log ∧ Ran (RecoversTo g V) k k')
      (fun _ k' => Ran (RecoversTo g V) k k' ∧ ∃ j, (k.buf j).dirty = true) k := by
  induction m generalizing k t with
  | zero =>
      obtain rfl : t = n := by omega
      exact Wp.of_pure ⟨h, rfl, Ran.of_same ⟨t, h.recovers⟩ rfl rfl⟩
  | succ m ih =>
      rw [List.range'_succ]
      apply Wp.of_bind
      refine (installBlock_spec h (by omega)).mono ?_ ?_
      · rintro _ k₁ ⟨h₁, hlog, hran, hclean⟩
        refine (ih h₁ (by omega)).mono ?_ ?_
        · rintro _ k₂ ⟨h₂, hlog₂, hran₂⟩
          exact ⟨h₂, hlog₂.trans hlog, hran.trans hran₂⟩
        · rintro _ k₂ ⟨hran₂, j, hj⟩
          refine ⟨hran.trans hran₂, ?_⟩
          by_contra hno
          have hall : ∀ j, (k.buf j).dirty = false := fun j => by
            simpa using fun hj => hno ⟨j, hj⟩
          exact absurd hj (by simp [hclean hall j])
      · rintro _ k₁ ⟨hd, hw, hj⟩
        exact ⟨Ran.of_same ⟨n, h.recovers⟩ hw hd, hj⟩

/-! ## Erasing the header, and recovery -/

/-- Between transactions: nothing is logged, nothing is dirty, and the disk holds `V`. -/
structure Quiet (g : Geometry) (V : ℕ → Block) (k : BlockState) : Prop where
  rest : AtRest g k
  free : k.log.busy = false
  count : k.log.lh.n = 0
  clean : ∀ j, (k.buf j).dirty = false
  recovers : Recovers g V k.disk 0

lemma AtRest.modifyLog (h : AtRest g k) {log : Log} (hs : log.start = k.log.start)
    (hz : log.size = k.log.size) (hd : log.dev = k.log.dev) : AtRest g { k with log := log } :=
  ⟨h.coh.modifyLog log, hs.trans h.start, hz.trans h.size, hd.trans h.dev, h.disksize, h.idle⟩

/-- Once every block is installed, `clearHead` and `writeHead` erase the transaction. -/
lemma erase_spec (h : Installing g V k n n) :
    Wp (do clearHead; writeHead)
      (fun _ k' => AtRest g k' ∧ k'.log = { k.log with lh := { k.log.lh with n := 0 } } ∧
        (∀ j, (k'.buf j).dirty = false) ∧ Recovers g V k'.disk 0 ∧ Ran (RecoversTo g V) k k')
      (fun _ _ => False) k := by
  have hclean : ∀ j, (k.buf j).dirty = false := by
    intro j
    by_contra hne
    obtain ⟨i, hi, hi', -⟩ := h.dirty j (by simpa using hne)
    omega
  have hrest' : AtRest g { k with log := { k.log with lh := { k.log.lh with n := 0 } } } :=
    h.rest.modifyLog rfl rfl rfl
  refine Wp.of_bind (Wp.of_ok rfl ?_)
  refine (writeHead_spec hrest' (fun j hj => absurd hj (by simp [hclean j]))).mono ?_ ?_
  · rintro _ k' ⟨hrest, hlog, hdirty, b, hdisk, hwr⟩
    have hrec : Recovers g V k'.disk 0 := by
      rw [hdisk]
      refine h.recovers.write_erase (fun i hi => ?_) (headCount_encode (n := 0) rfl (by simp))
      rw [← h.sector i hi]
      exact h.installed i hi
    refine ⟨hrest, hlog, fun j => ?_, hrec, Ran.of_write ⟨n, h.recovers⟩ ?_ hwr hdisk⟩
    · by_contra hne
      have hj : (k'.buf j).dirty = true := by simpa using hne
      have hsame := hdirty j (Or.inr hj)
      rw [hsame] at hj
      exact absurd hj (by simp [hclean j])
    · rw [← hdisk]
      exact ⟨0, hrec⟩
  · rintro _ k' ⟨-, -, hall⟩
    exact absurd (hall ⟨0, by simp [NBUF]⟩) (by simp [hclean])

/-- The machine as it comes up on the disk `d`: no buffer in use, nothing logged in memory, and
the log where `initlog` finds it. -/
def boot (g : Geometry) (d : ℕ → Block) : BlockState where
  disk := d
  disksize := g.disksize
  writes := []
  buf _ := binitBuf fun _ => 0
  lru := binitLru
  log := ⟨g.start, g.size, false, ROOTDEV, ⟨0, fun _ => 0⟩⟩

lemma boot_atRest (g : Geometry) (d : ℕ → Block) : AtRest g (boot g d) := by
  refine ⟨⟨?_, ?_, ?_, ?_, ?_⟩, rfl, rfl, rfl, rfl, fun i => rfl⟩
  · intro i
    simp [boot, binitLru]
  all_goals simp [boot, binitBuf]

/-- `readHead` puts the header of the disk into memory. -/
lemma readHead_spec (h : AtRest g k) (hclean : ∀ j, (k.buf j).dirty = false)
    (hrec : Recovers g V k.disk n) :
    Wp readHead
      (fun _ k' => Installing g V k' n 0 ∧ k'.disk = k.disk ∧ k'.writes = k.writes ∧
        k'.log.busy = k.log.busy ∧ ∀ j, (k'.buf j).dirty = false)
      (fun _ _ => False) k := by
  have hlt : g.start < g.disksize := by
    have := g.size_pos
    have := g.le_disksize
    omega
  unfold readHead
  refine Wp.of_bind (Wp.of_ok rfl (Wp.of_bind ?_))
  rw [h.dev, h.start]
  refine (h.bread hlt).mono ?_ ?_
  swap
  · rintro _ k' ⟨-, -, hall⟩
    exact absurd (hall ⟨0, by simp [NBUF]⟩) (by simp [hclean])
  intro i k₁ hb
  obtain ⟨hclean_i, hdata⟩ := hb.not_dirty (fun j hj => absurd hj (by simp [hclean j]))
  refine Wp.of_bind (Wp.of_ok rfl (Wp.of_bind (Wp.of_ok rfl ?_)))
  obtain ⟨k₂, hrun, hcoh, hsame, hdisk, hwr, hbuf⟩ :=
    brelse_spec (i := i) (hb.coh.modifyLog { k₁.log with lh := k₁.log.lh.decode (k₁.buf i).data })
      hb.busy hb.dev (fun _ => by rw [hdata, hb.sector, hb.disk])
  refine Wp.of_ok hrun ?_
  have hdisk' : k₂.disk = k.disk := hdisk.trans hb.disk
  have hlog : k₂.log = { k.log with lh := k.log.lh.decode (k.disk g.start) } := by
    rw [hsame.log, hdata, hb.sameBut.log]
  have hbuf' : ∀ j, (k₂.buf j).dirty = false ∧ (k₂.buf j).busy = false := by
    intro j
    by_cases hji : j = i
    · subst hji
      rw [hbuf]
      exact ⟨hb.dirty.trans hclean_i, rfl⟩
    · rw [hsame.buf j hji]
      exact ⟨(congrArg Buf.dirty (hb.sameBut.buf j hji)).trans (hclean j),
        (congrArg Buf.busy (hb.sameBut.buf j hji)).trans (h.idle j)⟩
  have hcount : (k.disk g.start).getInt 0 = n := hrec.count
  refine ⟨⟨⟨hcoh, by rw [hlog]; exact h.start, by rw [hlog]; exact h.size,
    by rw [hlog]; exact h.dev, ?_, fun j => (hbuf' j).2⟩, ?_, ?_, ?_, by simp, ?_⟩, hdisk',
    hwr.trans hb.writes, by rw [hlog], fun j => (hbuf' j).1⟩
  · exact (hsame.disksize.trans hb.sameBut.disksize).trans h.disksize
  · simpa [hlog, LogHeader.decode] using hcount
  · intro i hi
    rw [hlog, hdisk']
    simp [LogHeader.decode, headSector, hcount, hi]
  · rw [hdisk']
    exact hrec
  · intro j hj
    exact absurd hj (by simp [(hbuf' j).1])

/-- Recovery of a disk that recovers to `V` completes, every disk it goes through recovers to
`V`, and at the end the disk holds `V` and an empty log. -/
lemma recoverFromLog_spec {d : ℕ → Block} (h : RecoversTo g V d) :
    Wp recoverFromLog (fun _ k' => Quiet g V k' ∧ Ran (RecoversTo g V) (boot g d) k')
      (fun _ _ => False) (boot g d) := by
  obtain ⟨n, hrec⟩ := h
  unfold recoverFromLog
  apply Wp.of_bind
  refine (readHead_spec (boot_atRest g d) (fun j => rfl) hrec).mono ?_ (fun _ _ he => he)
  rintro _ k₁ ⟨h₁, hdisk₁, hwr₁, hbusy₁, hclean₁⟩
  have hran₁ : Ran (RecoversTo g V) (boot g d) k₁ := Ran.of_same ⟨n, hrec⟩ hwr₁ hdisk₁
  apply Wp.of_bind
  unfold installTrans
  refine Wp.of_bind (Wp.of_ok rfl ?_)
  rw [h₁.count, Int.toNat_natCast, List.range_eq_range']
  refine (installLoop_spec n h₁ (by omega)).mono ?_ ?_
  · rintro _ k₂ ⟨h₂, hlog₂, hran₂⟩
    refine (erase_spec h₂).mono ?_ (fun _ _ he => he)
    rintro _ k₃ ⟨hrest, hlog, hclean, hrec₃, hran₃⟩
    have hbusy : k₃.log.busy = false := by
      rw [hlog]
      exact (congrArg Log.busy hlog₂).trans hbusy₁
    exact ⟨⟨hrest, hbusy, by rw [hlog], hclean, hrec₃⟩, (hran₁.trans hran₂).trans hran₃⟩
  · rintro _ k₂ ⟨-, j, hj⟩
    exact absurd hj (by simp [hclean₁ j])

end Loop

end Xv6
