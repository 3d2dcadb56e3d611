import Xv6.Mkfs.Layout

/-!
# Building the image

What `iappend`, `ialloc` and the loop over the arguments do to the files of the image.  Between the
calls the inodes on disk are those of the root directory and of the files added so far, and show the
bytes that have been appended to each (`Rest`).
-/

namespace Xv6.Mkfs

open Lib

variable {s s' : Image} {ino : ℕ → DInode} {data : ℕ → List UInt8} {x off : ℕ} {p : List UInt8}

/-! ## Appending to an inode -/

/-- The first part of what `iappend` does to the image: the inode blocks stay. -/
structure Appended (s : Image) (ino : ℕ → DInode) (data : ℕ → List UInt8) (x : ℕ)
    (p : List UInt8) (s' : Image) (din : DInode) : Prop where
  laid : Laid s' (Function.update ino x din) (Function.update data x (data x ++ p))
  fields : { din with addrs := (ino x).addrs } = ino x
  freeblock : s'.freeblock + blocksFor (data x).length = s.freeblock + blocksFor
    ((data x).length + p.length)
  freeinode : s'.freeinode = s.freeinode
  disk : ∀ c < sb.dataStart, s'.disk c = s.disk c

namespace Appended

variable {p₁ p₂ : List UInt8} {s₁ s₂ : Image} {din₁ din₂ : DInode}

lemma nil (l : Laid s ino data) : Appended s ino data x [] s (ino x) :=
  ⟨by rwa [List.append_nil, Function.update_eq_self, Function.update_eq_self], rfl, rfl, rfl,
    fun _ _ => rfl⟩

lemma trans (a₁ : Appended s ino data x p₁ s₁ din₁)
    (a₂ : Appended s₁ (Function.update ino x din₁) (Function.update data x (data x ++ p₁))
      x p₂ s₂ din₂) :
    Appended s ino data x (p₁ ++ p₂) s₂ din₂ := by
  obtain ⟨hl, hf, hb, hi, hd⟩ := a₂
  rw [Function.update_idem, Function.update_idem, Function.update_self, List.append_assoc] at hl
  rw [Function.update_self] at hf hb
  refine ⟨hl, ?_, ?_, hi.trans a₁.freeinode, fun c hc => (hd c hc).trans (a₁.disk c hc)⟩
  · rw [← a₁.fields, ← hf]
  · have := a₁.freeblock
    rw [List.length_append] at hb ⊢
    rw [Nat.add_assoc] at hb
    omega

lemma type_ne (a : Appended s ino data x p s' din₁) (ht : (ino x).type ≠ 0) :
    (Function.update ino x din₁ x).type ≠ 0 := by
  rwa [Function.update_self, show din₁.type = (ino x).type by rw [← a.fields]]

end Appended

/-- A turn of the loop appends `m` bytes to the block at the end of the file. -/
lemma iappend_turn {m : ℕ} (l : Laid s ino data) (hx : x < ninodes) (ht : (ino x).type ≠ 0)
    (hoff : (data x).length = off) (hm : 0 < m) (hfit : off % BSIZE + m ≤ BSIZE)
    (hle : m ≤ p.length) (hmax : off < MAXFILE * BSIZE)
    (hroom : s.freeblock + blocksFor (off + m) ≤ size + blocksFor off) :
    ∃ b s₁ din, fileBlock (ino x) (off / BSIZE) s = some (b, din, s₁) ∧ b < s₁.sectors ∧
      Appended s ino data x (p.take m)
        (s₁.wsect b ((s₁.disk b).blit (off % BSIZE) m fun j => p.getD j 0)) din := by
  have hB := BSIZE_eq
  obtain ⟨hcount, -⟩ := newPlaces_spec (by rw [← hoff]; exact l.place x hx ht) hm hfit
  have hbn : off / BSIZE < MAXFILE := Nat.div_lt_of_lt_mul (by rwa [Nat.mul_comm])
  obtain ⟨s₁, din, hblock, e⟩ := fileBlock_spec l.owned hx ht hbn (by omega)
  have hfree := e.freeblock
  have hne := (l.slot_append hx ht hoff hm hfit e _).2
    (takes_fileSlot.2 (show off / BSIZE * BSIZE < off + m by
    rw [hB]
    omega))
  have hr := e.owned.range hx (e.type_ne ht) (k := fileSlot (off / BSIZE))
    (by rwa [Function.update_self])
  rw [Function.update_self] at hr
  have l₁ := l.append (f := fun j => p.getD j 0) hx ht hoff hm hfit e (by omega) rfl
  have htake : ((List.range m).map fun j => p.getD j 0) = p.take m := by
    rw [Bytes.map_range_getD, Nat.sub_eq_zero_of_le hle, List.replicate_zero, List.append_nil]
  rw [htake] at l₁
  refine ⟨_, s₁, din, hblock, ?_, l₁, e.fields, ?_, e.freeinode, fun c hc => ?_⟩
  · rw [e.owned.sectors]
    omega
  · change s₁.freeblock + _ = _
    rw [hoff, List.length_take, min_eq_left hle]
    omega
  · rw [wsect_disk_of_ne (by omega), e.low hx ht hc]

lemma iappendLoop_spec {n : ℕ} (l : Laid s ino data) (hx : x < ninodes) (ht : (ino x).type ≠ 0)
    (hoff : (data x).length = off) (hn : p.length ≤ n) (hmax : off + p.length ≤ MAXFILE * BSIZE)
    (hroom : s.freeblock + blocksFor (off + p.length) ≤ size + blocksFor off) :
    ∃ s' din, iappendLoop n (ino x) off p s = some (din, off + p.length, s') ∧
      Appended s ino data x p s' din := by
  induction n generalizing s ino data off p with
  | zero =>
      obtain rfl : p = [] := List.length_eq_zero_iff.1 (Nat.le_zero.1 hn)
      exact ⟨s, ino x, rfl, .nil l⟩
  | succ n ih =>
      rw [iappendLoop]
      by_cases hp : p = []
      · subst hp
        exact ⟨s, ino x, by rw [if_pos rfl]; rfl, .nil l⟩
      · have hB := BSIZE_eq
        have hM := MAXFILE_mul_BSIZE
        have hpos : 0 < p.length := List.length_pos_iff.2 hp
        obtain ⟨m, hm⟩ : ∃ m, min p.length ((off / 512 + 1) * 512 - off) = m := ⟨_, rfl⟩
        have hm0 : 0 < m := by omega
        have hle : m ≤ p.length := by omega
        have hmono : blocksFor (off + m) ≤ blocksFor (off + p.length) := blocksFor_mono (by omega)
        obtain ⟨b, s₁, din₁, hblock, hb, a₁⟩ := iappend_turn l hx ht hoff hm0
          (by rw [hB]; omega) hle (by omega) (by omega)
        -- the rest of the bytes, by induction
        have hlen : (Function.update data x (data x ++ p.take m) x).length = off + m := by
          rw [Function.update_self, List.length_append, List.length_take, hoff, min_eq_left hle]
        have hdrop : off + m + (p.drop m).length = off + p.length := by
          rw [List.length_drop]
          omega
        have hfree := a₁.freeblock
        rw [hoff, List.length_take, min_eq_left hle] at hfree
        obtain ⟨s', din, hrun, a₂⟩ := ih (p := p.drop m) a₁.laid (a₁.type_ne ht) hlen
          (by rw [List.length_drop]; omega) (by omega) (by rw [hdrop]; omega)
        refine ⟨s', din, ?_, List.take_append_drop m p ▸ a₁.trans a₂⟩
        rw [Function.update_self, hdrop] at hrun
        have hmod : off - off / 512 * 512 = off % 512 := by omega
        have hfbn : ¬ MAXFILE ≤ off / 512 := by
          have : MAXFILE = 140 := rfl
          omega
        have hblock' : fileBlock (ino x) (off / 512) s = some (b, din₁, s₁) := hblock
        rw [if_neg hp, if_neg hfbn, hm, hmod, hblock']
        simp only [Option.bind_eq_bind, Option.bind_some, rsect_eq hb]
        exact hrun

/-! ## The inodes on disk -/

lemma slotOf_addrs {h : ℕ → Block} {v w : DInode} (hv : v.addrs = w.addrs) (k : ℕ) :
    slotOf h v k = slotOf h w k := by
  have haddr : ∀ j, v.addr j = w.addr j := fun j => by rw [DInode.addr, DInode.addr, hv]
  rw [slotOf, slotOf, haddr, haddr]

namespace Laid

/-- Inodes with the same addresses; those that were free before have none. -/
lemma congr {ino' : ℕ → DInode} (l : Laid s ino data)
    (haddr : ∀ y < ninodes, (ino' y).addrs = (ino y).addrs)
    (hnew : ∀ y < ninodes, (ino' y).type ≠ 0 →
      (ino y).type ≠ 0 ∨ ((∀ k, slotOf s.disk (ino y) k = 0) ∧ data y = []))
    (hold : ∀ y < ninodes, (ino y).type ≠ 0 → (ino' y).type ≠ 0) : Laid s ino' data := by
  have hslot : ∀ y < ninodes, ∀ k, slotOf s.disk (ino' y) k = slotOf s.disk (ino y) k :=
    fun y hy => slotOf_addrs (haddr y hy)
  refine ⟨⟨l.owned.sectors, l.owned.used, l.owned.lo, l.owned.fresh, l.owned.owns.congr
    (fun q => ?_) fun _ _ =>
    Iff.rfl⟩, fun y hy ht k => ?_, fun y hy ht => ?_⟩
  · by_cases hq : q.1 < sb.ninodes
    · by_cases ht : (ino q.1).type ≠ 0
      · have ht' := hold q.1 hq ht
        simp only [own, hslot q.1 hq, ne_eq, ht, ht', not_false_eq_true, true_and]
      · have hnone : own sb s.disk ino q = none := if_neg fun hc => ht hc.2.1
        rw [hnone, own, if_neg]
        rintro ⟨-, ht', hk⟩
        exact hk (by rw [hslot q.1 hq, ((hnew q.1 hq ht').resolve_left ht).1])
    · rw [own, own, if_neg fun hc => hq hc.1, if_neg fun hc => hq hc.1]
  · rw [hslot y hy]
    rcases hnew y hy ht with ht | ⟨hzero, hdata⟩
    · exact l.place y hy ht k
    · simp [hzero, hdata, Takes]
  · rcases hnew y hy ht with ht | ⟨-, hdata⟩
    · refine Eq.trans (List.map_congr_left fun i _ => ?_) (l.bytes y hy ht)
      rw [fileByte, fileByte, hslot y hy]
    · simp [hdata, fileBytes]

/-- Writes below the data blocks. -/
lemma low (l : Laid s ino data) (hsectors : s'.sectors = s.sectors)
    (hused : s'.usedblocks = s.usedblocks) (hfree : s'.freeblock = s.freeblock)
    (hdisk : ∀ c, sb.dataStart ≤ c → s'.disk c = s.disk c) :
    Laid s' ino data := by
  have hslot : ∀ y < ninodes, (ino y).type ≠ 0 → ∀ k, slotOf s'.disk (ino y) k =
    slotOf s.disk (ino y) k := by
    intro y hy ht k
    refine slotOf_congr (fun _ _ => rfl) (fun hz => hdisk _ ?_) k
    have hr := l.owned.range hy ht (k := NDIRECT)
    rw [slotOf, if_pos le_rfl] at hr
    exact (hr hz).1
  refine ⟨⟨hsectors.trans
    l.owned.sectors, by rw [hused, hfree, l.owned.used], by rw [hfree]; exact l.owned.lo,
    fun b hb => ?_, ?_⟩, fun y hy ht k => ?_, fun y hy ht => ?_⟩
  · rw [hfree] at hb
    rw [hdisk b (l.owned.lo.trans hb), l.owned.fresh b hb]
  · rw [hfree]
    refine l.owned.owns.congr (fun q => ?_) fun _ _ => Iff.rfl
    by_cases hq : q.1 < sb.ninodes ∧ (ino q.1).type ≠ 0
    · rw [own, own, hslot q.1 hq.1 hq.2]
    · rw [own, own, if_neg fun hc => hq ⟨hc.1, hc.2.1⟩, if_neg fun hc => hq ⟨hc.1, hc.2.1⟩]
  · rw [hslot y hy ht]
    exact l.place y hy ht k
  · refine Eq.trans (List.map_congr_left fun i hi => ?_) (l.bytes y hy ht)
    have hi' := List.mem_range.1 hi
    have hne : slotOf s.disk (ino y) (fileSlot ((0 + i) / BSIZE)) ≠ 0 := by
      have hB := BSIZE_eq
      rw [l.place y hy ht, takes_fileSlot, hB]
      omega
    rw [fileByte, fileByte, hslot y hy ht, hdisk _ (l.owned.range hy ht hne).1]

end Laid

/-- The type that `mkfs` gives to an inode. -/
def kind (x : ℕ) : Int16 := if x = ROOTINO then T_DIR else T_FILE

/-- The image between two calls: the inodes below `freeinode` show `data`, and the others are
free. -/
structure Rest (s : Image) (data : ℕ → List UInt8) : Prop where
  laid : Laid s (dinodeAt s.disk) data
  inode : ∀ x, 0 < x → x < s.freeinode → (dinodeAt s.disk x).type = kind x ∧
    (dinodeAt s.disk x).nlink = 1 ∧
    (dinodeAt s.disk x).size = UInt32.ofNat (data x).length
  free : ∀ x < ninodes, x = 0 ∨ s.freeinode ≤ x → dinodeAt s.disk x = DInode.zero
  bound : s.freeinode ≤ ninodes
  empty : ∀ x, s.freeinode ≤ x → data x = []
  super : s.disk 1 = superblock

lemma iblock_lt (hx : x < ninodes) : 2 ≤ IBLOCK x ∧ IBLOCK x < sb.dataStart :=
  ⟨Nat.le_add_left 2 _, sb.iblock_lt_dataStart hx⟩

/-- What `winode` does. -/
lemma winode_eq (v : DInode) (hx : x < ninodes) (hs : s.sectors = size) :
    ∃ s', winode x v s = some s' ∧ s'.sectors = s.sectors ∧ s'.usedblocks = s.usedblocks ∧
      s'.freeblock = s.freeblock ∧ s'.freeinode = s.freeinode ∧ (∀ c, c < 2 ∨ sb.dataStart ≤ c →
        s'.disk c = s.disk c) ∧
      ∀ y, dinodeAt s'.disk y = if y = x then v else dinodeAt s.disk y := by
  obtain ⟨hlo, hhi⟩ := iblock_lt hx
  have hD := sb_dataStart
  have hS := Mkfs.size_eq
  have hr : s.rsect (i2b x) = some (s.disk (IBLOCK x)) :=
    rsect_eq (show IBLOCK x < s.sectors by omega)
  refine ⟨s.wsect (IBLOCK x) (v.encode (s.disk (IBLOCK x)) (Fs.inodeOffset x)), ?_,
    max_eq_left (by omega), rfl, rfl, rfl, fun c hc => wsect_disk_of_ne (by omega),
    fun y => dinodeAt_encode⟩
  rw [winode, hr]
  rfl

/-- The inodes on disk after writes to data blocks. -/
lemma dinodeAt_of_low (hdisk : ∀ c < sb.dataStart, s'.disk c = s.disk c) (hx : x < ninodes) :
    dinodeAt s'.disk x = dinodeAt s.disk x := by
  rw [dinodeAt, hdisk _ (iblock_lt hx).2, dinodeAt]

namespace Rest

lemma type_ne (r : Rest s data) (hx0 : 0 < x) (hx : x < s.freeinode) :
    (dinodeAt s.disk x).type ≠ 0 := by
  rw [(r.inode x hx0 hx).1, kind]
  split <;> decide

lemma size_eq (r : Rest s data) (hx0 : 0 < x) (hx : x < s.freeinode)
    (hmax : (data x).length ≤ MAXFILE * BSIZE) : (dinodeAt s.disk x).size.toNat =
      (data x).length := by
  have hM := MAXFILE_mul_BSIZE
  rw [(r.inode x hx0 hx).2.2, UInt32.toNat_ofNat_of_lt' (by rw [UInt32.size]; omega)]

lemma rinode (r : Rest s data) (hx : x < s.freeinode) :
    Mkfs.rinode x s = some (dinodeAt s.disk x) := by
  have hxn := (iblock_lt (hx.trans_le r.bound)).2
  have hD := sb_dataStart
  have hS := Mkfs.size_eq
  have hsect := r.laid.owned.sectors
  rw [Mkfs.rinode, show s.rsect (i2b x) = some (s.disk (IBLOCK x)) from
    rsect_eq (show IBLOCK x < s.sectors by omega)]
  rfl

/-- `iappend` appends bytes to one file. -/
lemma iappend (r : Rest s data) (hx0 : 0 < x) (hx : x < s.freeinode)
    (hmax : (data x).length + p.length ≤ MAXFILE * BSIZE)
    (hroom : s.freeblock + blocksFor ((data x).length + p.length) ≤ size +
      blocksFor (data x).length) :
    ∃ s', iappend x p s = some s' ∧ Rest s' (Function.update data x (data x ++ p)) ∧
      s'.freeblock + blocksFor (data x).length = s.freeblock +
        blocksFor ((data x).length + p.length) ∧
      s'.freeinode = s.freeinode := by
  have hxn := hx.trans_le r.bound
  have hsize := r.size_eq hx0 hx (by omega)
  have hrin := r.rinode hx
  obtain ⟨s₁, din, hrun, a⟩ := iappendLoop_spec r.laid hxn (r.type_ne hx0 hx) rfl le_rfl hmax hroom
  obtain ⟨s₂, hw, hsect, hused, hfree, hino, hdisk, hat⟩ :=
    winode_eq { din with size := UInt32.ofNat ((data x).length + p.length) } hxn
      a.laid.owned.sectors
  refine ⟨s₂, ?_, ⟨?_, fun y hy0 hy => ?_, fun y hy hfreey => ?_, ?_, fun y hy => ?_, ?_⟩, ?_, ?_⟩
  · rw [Mkfs.iappend, hrin]
    simp only [Option.bind_eq_bind, Option.bind_some, hsize, hrun, hw]
  · -- the inodes on disk are those of the loop, except for the size
    have l₂ := a.laid.low hsect hused hfree fun c hc => hdisk c (.inr hc)
    have heq : ∀ y < ninodes, (dinodeAt s₂.disk y).addrs =
      (Function.update (dinodeAt s.disk) x din y).addrs ∧
        (dinodeAt s₂.disk y).type = (Function.update (dinodeAt s.disk) x din y).type :=
        fun y hy => by
      rw [hat]
      by_cases hyx : y = x
      · subst hyx
        rw [if_pos rfl, Function.update_self]
        exact ⟨rfl, rfl⟩
      · rw [if_neg hyx, Function.update_of_ne hyx, dinodeAt_of_low a.disk hy]
        exact ⟨rfl, rfl⟩
    exact l₂.congr (fun y hy => (heq y hy).1) (fun y hy ht => .inl (by rwa [(heq y hy).2] at ht))
      fun y hy ht => by rwa [(heq y hy).2]
  · have hy' : y < s.freeinode := by rwa [hino, a.freeinode] at hy
    rw [hat]
    by_cases hyx : y = x
    · subst hyx
      have hold := r.inode y hy0 hy'
      rw [if_pos rfl, Function.update_self, List.length_append]
      refine ⟨?_, ?_, rfl⟩
      · rw [← hold.1, ← a.fields]
      · rw [← hold.2.1, ← a.fields]
    · rw [if_neg hyx, Function.update_of_ne hyx, dinodeAt_of_low a.disk (hy'.trans_le r.bound)]
      exact r.inode y hy0 hy'
  · rw [hino, a.freeinode] at hfreey
    have hyx : y ≠ x := by omega
    rw [hat, if_neg hyx, dinodeAt_of_low a.disk hy]
    exact r.free y hy hfreey
  · rw [hino, a.freeinode]
    exact r.bound
  · rw [hino, a.freeinode] at hy
    rw [Function.update_of_ne (by omega)]
    exact r.empty y hy
  · rw [hdisk 1 (.inl (by decide)), a.disk 1 (by decide)]
    exact r.super
  · rw [hfree]
    exact a.freeblock
  · rw [hino, a.freeinode]

/-- `ialloc` takes the next inode. -/
lemma ialloc {type : Int16} (r : Rest s data) (hx : s.freeinode < ninodes) (hpos : 0 < s.freeinode)
    (htype : type = kind s.freeinode) :
    ∃ s', ialloc type s = some (s.freeinode, s') ∧ Rest s' data ∧ s'.freeblock = s.freeblock ∧
      s'.freeinode = s.freeinode + 1 := by
  obtain ⟨s₁, hw, hsect, hused, hfree, hino, hdisk, hat⟩ :=
    winode_eq (s := { s with freeinode := s.freeinode + 1 })
      { DInode.zero with type := type, nlink := 1 } hx r.laid.owned.sectors
  have hold := r.free s.freeinode hx (.inr le_rfl)
  have hdata := r.empty s.freeinode le_rfl
  refine ⟨s₁, ?_, ⟨?_, fun y hy0 hy => ?_, fun y hy hfreey => ?_, ?_, fun y hy => ?_, ?_⟩, hfree,
    hino⟩
  · simp only [Mkfs.ialloc, Option.bind_eq_bind, hw, Option.bind_some]
    rfl
  · have l₁ : Laid s₁ (dinodeAt s.disk) data := r.laid.low hsect hused hfree fun c hc =>
      hdisk c (.inr hc)
    refine l₁.congr (fun y hy => ?_) (fun y hy ht => ?_) fun y hy ht => ?_
    · rw [hat]
      split
      · rename_i hyx
        rw [hyx, hold]
      · rfl
    · rw [hat] at ht
      split at ht
      · rename_i hyx
        refine .inr ⟨fun k => ?_, by rw [hyx, hdata]⟩
        rw [hyx, hold]
        simp [slotOf, DInode.addr, DInode.zero]
      · exact .inl ht
    · rw [hat, if_neg fun hyx => ht (by rw [hyx, hold]; rfl)]
      exact ht
  · rw [hat]
    by_cases hyx : y = s.freeinode
    · rw [if_pos hyx, hyx, hdata]
      exact ⟨htype, rfl, rfl⟩
    · rw [if_neg hyx]
      rw [hino] at hy
      exact r.inode y hy0 (by simp only at hy; omega)
  · rw [hino] at hfreey
    have hyx : y ≠ s.freeinode := by
      simp only at hfreey
      omega
    rw [hat, if_neg hyx]
    refine r.free y hy ?_
    simp only at hfreey
    omega
  · rw [hino]
    exact hx
  · rw [hino] at hy
    exact r.empty y (by simp only at hy; omega)
  · rw [hdisk 1 (.inl (by decide))]
    exact r.super

end Rest

/-! ## The arguments -/

/-- The bytes of the file of an argument. -/
def Arg.bytes (a : Arg) : List UInt8 := (a.file.map Source.bytes).getD []

/-- The entries of the root directory. -/
def rootEntries (args : List Arg) : List (ℕ × Name) :=
  (ROOTINO, [46]) :: (ROOTINO, [46, 46]) :: args.mapIdx fun i a => (i + 2, a.name)

/-- What the inodes show after the arguments have been added. -/
def dataOf (args : List Arg) (x : ℕ) : List UInt8 :=
  if x = ROOTINO then (rootEntries args).flatMap fun e => entry e.1 e.2
  else if 2 ≤ x then (args[x - 2]?.map Arg.bytes).getD [] else []

/-- The blocks that are in use after the arguments have been added. -/
def usedFor (args : List Arg) : ℕ :=
  sb.dataStart + blocksFor (Dirent.SIZE * (args.length + 2)) +
    (args.map fun a => blocksFor a.bytes.length).sum

lemma length_entry (inum : ℕ) (name : Name) : (entry inum name).length = Dirent.SIZE := by
  rw [entry, List.length_map, List.length_range]

lemma length_flatMap_entry (es : List (ℕ × Name)) :
    (es.flatMap fun e => entry e.1 e.2).length = Dirent.SIZE * es.length := by
  induction es with
  | nil => rfl
  | cons e es ih =>
      rw [List.flatMap_cons, List.length_append, ih, List.length_cons, length_entry, Nat.mul_succ,
        Nat.add_comm]

lemma length_rootEntries (args : List Arg) : (rootEntries args).length = args.length + 2 := by
  simp [rootEntries]

lemma rootEntries_append (args : List Arg) (a : Arg) :
    rootEntries (args ++ [a]) = rootEntries args ++ [(args.length + 2, a.name)] := by
  simp [rootEntries]

/-- An argument adds an entry to the root directory and a file. -/
lemma dataOf_append (args : List Arg) (a : Arg) : dataOf (args ++ [a]) =
    Function.update (Function.update (dataOf args) ROOTINO
      (dataOf args ROOTINO ++ entry (args.length + 2) a.name)) (args.length + 2) a.bytes := by
  have hR := ROOTINO_eq
  funext x
  by_cases hx : x = args.length + 2
  · subst hx
    rw [Function.update_self, dataOf, if_neg (by omega), if_pos (by omega)]
    simp
  · rw [Function.update_of_ne hx]
    by_cases hroot : x = ROOTINO
    · subst hroot
      rw [Function.update_self, dataOf, dataOf, if_pos rfl, if_pos rfl, rootEntries_append,
        List.flatMap_append]
      simp
    · rw [Function.update_of_ne hroot, dataOf, dataOf, if_neg hroot, if_neg hroot]
      split
      · have hget : (args ++ [a])[x - 2]? = args[x - 2]? := by
          by_cases hlt : x - 2 < args.length
          · exact List.getElem?_append_left hlt
          · rw [List.getElem?_eq_none (by simp; omega), List.getElem?_eq_none (by omega)]
        rw [hget]
      · rfl

lemma usedFor_append (args : List Arg) (a : Arg) :
    usedFor (args ++ [a]) + blocksFor (Dirent.SIZE * (args.length + 2)) =
      usedFor args + blocksFor (Dirent.SIZE * (args.length + 3)) + blocksFor a.bytes.length := by
  simp only [usedFor, List.length_append, List.length_singleton, List.map_append,
    List.sum_append, List.map_cons,
    List.map_nil, List.sum_singleton, show args.length + 1 + 2 = args.length + 3 by omega]
  omega

/-- Appending what the calls of `read` return. -/
lemma Rest.iappendAll {chunks : List (List UInt8)} (r : Rest s data) (hx0 : 0 < x)
    (hx : x < s.freeinode) (hmax : (data x).length + chunks.flatten.length ≤ MAXFILE * BSIZE)
    (hroom : s.freeblock + blocksFor ((data x).length + chunks.flatten.length) ≤
      size + blocksFor (data x).length) :
    ∃ s', iappendAll x chunks s = some s' ∧
    Rest s' (Function.update data x (data x ++ chunks.flatten)) ∧
      s'.freeblock + blocksFor (data x).length =
        s.freeblock + blocksFor ((data x).length + chunks.flatten.length) ∧
      s'.freeinode = s.freeinode := by
  induction chunks generalizing s data with
  | nil =>
      refine ⟨s, rfl, ?_, rfl, rfl⟩
      rwa [List.flatten_nil, List.append_nil, Function.update_eq_self]
  | cons c chunks ih =>
      rw [List.flatten_cons, List.length_append, ← Nat.add_assoc] at hmax hroom ⊢
      have hmono : blocksFor ((data x).length + c.length) ≤
          blocksFor ((data x).length + c.length + chunks.flatten.length) :=
          blocksFor_mono (by omega)
      obtain ⟨s₁, hrun, r₁, hfree, hino⟩ := r.iappend (p := c) hx0 hx (by omega) (by omega)
      have hself : Function.update data x (data x ++ c) x = data x ++ c := Function.update_self ..
      obtain ⟨s', hrest, r', hfree', hino'⟩ := ih r₁ (by rwa [hino])
        (by rw [hself, List.length_append]; exact hmax) (by rw [hself, List.length_append]; omega)
      rw [hself, List.length_append] at hfree'
      refine ⟨s', ?_, ?_, by omega, hino'.trans hino⟩
      · rw [Mkfs.iappendAll, List.foldlM_cons, hrun]
        exact hrest
      · rw [Function.update_idem, hself, List.append_assoc] at r'
        exact r'

/-- If the loop of `iappend` ends, the bytes fit into a file, and there was room for them. -/
lemma iappendLoop_fits {n : ℕ} {r : DInode × ℕ × Image} (l : Laid s ino data) (hx : x < ninodes)
    (ht : (ino x).type ≠ 0) (hoff : (data x).length = off) (hn : p.length ≤ n)
    (hfree : s.freeblock ≤ size) (h : iappendLoop n (ino x) off p s = some r) :
    (p = [] ∨ off + p.length ≤ MAXFILE * BSIZE) ∧
      s.freeblock + blocksFor (off + p.length) ≤ size + blocksFor off := by
  have hB := BSIZE_eq
  have hM := MAXFILE_mul_BSIZE
  have hF := MAXFILE_eq
  have hnil : p = [] → (p = [] ∨ off + p.length ≤ MAXFILE * BSIZE) ∧
      s.freeblock + blocksFor (off + p.length) ≤ size + blocksFor off := by
    rintro rfl
    exact ⟨.inl rfl, Nat.add_le_add_right hfree _⟩
  induction n generalizing s ino data off p with
  | zero => exact hnil (List.eq_nil_of_length_eq_zero (by omega))
  | succ n ih =>
      rw [iappendLoop] at h
      split at h
      · rename_i hp
        exact hnil hp
      · rename_i hp
        have hpos := List.length_pos_iff.2 hp
        split at h
        · exact absurd h (by simp)
        · obtain ⟨m, hm⟩ : ∃ m, min p.length ((off / 512 + 1) * 512 - off) = m := ⟨_, rfl⟩
          have hm0 : 0 < m := by omega
          have hle : m ≤ p.length := by omega
          have hfit : off % BSIZE + m ≤ BSIZE := by
            rw [hB]
            omega
          obtain ⟨r₁, hblock, h⟩ := Option.bind_eq_some_iff.1 h
          obtain ⟨buf, hbuf, h⟩ := Option.bind_eq_some_iff.1 h
          -- the blocks of this turn, and then those of the others, by induction
          have hroom := fileBlock_room l.owned hx ht (by omega) hfree hblock
            (lt_sectors_of_rsect hbuf)
          obtain ⟨hcount, -⟩ := newPlaces_spec (by rw [← hoff]; exact l.place x hx ht) hm0 hfit
          have hroom' : s.freeblock + blocksFor (off + m) ≤ size + blocksFor off := by
            change s.freeblock + (newPlaces s.disk (ino x) (off / BSIZE)).length ≤ size at hroom
            omega
          obtain ⟨b, s₁, din₁, hblock', hb, a₁⟩ := iappend_turn l hx ht hoff hm0 hfit hle
            (by omega) hroom'
          obtain rfl := Option.some.inj (hblock.symm.trans hblock')
          obtain rfl := Option.some.inj ((rsect_eq hb).symm.trans hbuf)
          have hturn := a₁.freeblock
          rw [hoff, List.length_take, min_eq_left hle] at hturn
          have hlen : (Function.update data x (data x ++ p.take m) x).length = off + m := by
            rw [Function.update_self, List.length_append, List.length_take, hoff, min_eq_left hle]
          have hdrop : off + m + (p.drop m).length = off + p.length := by
            rw [List.length_drop]
            omega
          have hmod : off - off / 512 * 512 = off % BSIZE := by
            rw [hB]
            omega
          rw [hm, hmod] at h
          have hrest := ih (p := p.drop m) a₁.laid (a₁.type_ne ht) hlen (by omega) (by omega)
            (by rw [Function.update_self]; exact h)
            (fun hp => ⟨.inl hp, by rw [hp, List.length_nil, Nat.add_zero]; omega⟩)
          rw [hdrop] at hrest
          refine ⟨.inr ?_, by omega⟩
          rcases hrest.1 with hnil | hle
          · have := List.drop_eq_nil_iff.1 hnil
            omega
          · exact hle

/-- If `iappend` succeeds, the bytes fit into a file, and there was room for them. -/
lemma Rest.iappend_fits (r : Rest s data) (hx0 : 0 < x) (hx : x < s.freeinode)
    (hmax : (data x).length ≤ MAXFILE * BSIZE) (hfree : s.freeblock ≤ size)
    (hrun : Mkfs.iappend x p s = some s') : (data x).length + p.length ≤ MAXFILE * BSIZE ∧
      s.freeblock + blocksFor ((data x).length + p.length) ≤ size + blocksFor (data x).length := by
  rw [Mkfs.iappend, r.rinode hx] at hrun
  simp only [Option.bind_eq_bind, Option.bind_some] at hrun
  obtain ⟨res, hloop, -⟩ := Option.bind_eq_some_iff.1 hrun
  rw [r.size_eq hx0 hx hmax] at hloop
  obtain ⟨hfit, hroom⟩ := iappendLoop_fits r.laid (hx.trans_le r.bound)
    (r.type_ne hx0 hx) rfl le_rfl hfree hloop
  refine ⟨?_, hroom⟩
  rcases hfit with rfl | hle
  · exact hmax
  · exact hle

/-- What has been appended fits into a file, and there was room for it. -/
lemma Rest.iappendAll_fits {chunks : List (List UInt8)} (r : Rest s data) (hx0 : 0 < x)
    (hx : x < s.freeinode) (hmax : (data x).length ≤ MAXFILE * BSIZE) (hfree : s.freeblock ≤ size)
    (hrun : Mkfs.iappendAll x chunks s = some s') :
    (data x).length + chunks.flatten.length ≤ MAXFILE * BSIZE ∧
      s.freeblock + blocksFor ((data x).length + chunks.flatten.length) ≤
        size + blocksFor (data x).length := by
  induction chunks generalizing s data with
  | nil => exact ⟨hmax, Nat.add_le_add_right hfree _⟩
  | cons c chunks ih =>
      rw [Mkfs.iappendAll, List.foldlM_cons] at hrun
      obtain ⟨s₁, hc, hrun⟩ := Option.bind_eq_some_iff.1 hrun
      rw [List.flatten_cons, List.length_append, ← Nat.add_assoc]
      obtain ⟨hfit, hroom⟩ := r.iappend_fits hx0 hx hmax hfree hc
      obtain ⟨s₁', hc', r₁, hfree', hino⟩ := r.iappend (p := c) hx0 hx hfit hroom
      obtain rfl := Option.some.inj (hc.symm.trans hc')
      have hself : Function.update data x (data x ++ c) x = data x ++ c := Function.update_self ..
      obtain ⟨hfit', hroom'⟩ := ih r₁ (by rwa [hino])
        (by rw [hself, List.length_append]; exact hfit) (by omega) hrun
      rw [hself, List.length_append] at hfit' hroom'
      exact ⟨hfit', by omega⟩

/-- The image after some arguments have been added. -/
structure Built (s : Image) (args : List Arg) : Prop where
  rest : Rest s (dataOf args)
  freeinode : s.freeinode = args.length + 2
  freeblock : s.freeblock = usedFor args

namespace Built

variable {args : List Arg}

lemma length_root (args : List Arg) :
    (dataOf args ROOTINO).length = Dirent.SIZE * (args.length + 2) := by
  rw [dataOf, if_pos rfl, length_flatMap_entry, length_rootEntries]

/-- The inode of the next file. -/
lemma addInode (b : Built s args) (hcount : args.length + 3 ≤ ninodes) :
    ∃ s₁, ialloc T_FILE s = some (args.length + 2, s₁) ∧ Rest s₁ (dataOf args) ∧
      s₁.freeblock = usedFor args ∧ s₁.freeinode = args.length + 3 := by
  have hR := ROOTINO_eq
  have hfi := b.freeinode
  have hkind : T_FILE = kind s.freeinode := by rw [kind, if_neg (by omega)]
  obtain ⟨s₁, halloc, r₁, hfree₁, hino₁⟩ := b.rest.ialloc (by omega) (by omega) hkind
  rw [hfi] at halloc hino₁
  exact ⟨s₁, halloc, r₁, hfree₁.trans b.freeblock, hino₁⟩

/-- The body of the loop over the arguments, up to the file's bytes: the file has an inode and an
entry. -/
lemma addEntry (b : Built s args) (a : Arg) (hslash : slash ∉ a.path)
    (hcount : args.length + 3 ≤ ninodes)
    (hroom : usedFor args + blocksFor (Dirent.SIZE * (args.length + 3)) ≤
      size + blocksFor (Dirent.SIZE * (args.length + 2))) :
    ∃ s₂, (∀ f, a.file = some f → Mkfs.addFile ROOTINO s a =
      iappendAll (args.length + 2) f.chunks s₂) ∧
      Rest s₂ (Function.update (dataOf args) ROOTINO (dataOf args ROOTINO ++
        entry (args.length + 2) a.name)) ∧
      s₂.freeblock + blocksFor a.bytes.length = usedFor (args ++ [a]) ∧ s₂.freeinode =
        args.length + 3 := by
  have hR := ROOTINO_eq
  have hN := ninodes_eq
  have hS := Dirent.SIZE_eq
  have hM := MAXFILE_mul_BSIZE
  have hused := usedFor_append args a
  have hlen : Dirent.SIZE * (args.length + 2) + Dirent.SIZE = Dirent.SIZE * (args.length + 3) := rfl
  obtain ⟨s₁, halloc, r₁, hfree₁, hino₁⟩ := b.addInode hcount
  obtain ⟨s₂, happ, r₂, hfree₂, hino₂⟩ := r₁.iappend (x := ROOTINO)
    (p := entry (args.length + 2) a.name) (by omega) (by omega)
    (by rw [length_root, length_entry, hS]; omega) (by rw [length_root, length_entry, hlen]; omega)
  rw [length_root, length_entry, hlen] at hfree₂
  refine ⟨s₂, fun f hfile => ?_, r₂, by omega, hino₂.trans hino₁⟩
  rw [Mkfs.addFile, if_neg hslash, hfile]
  simp only [Option.bind_eq_bind, Option.bind_some, halloc, happ]

/-- The new file is empty before its bytes are appended. -/
lemma dataOf_next (b : Built s args) (e : List UInt8) :
    Function.update (dataOf args) ROOTINO e (args.length + 2) = [] := by
  have hR := ROOTINO_eq
  have hfi := b.freeinode
  rw [Function.update_of_ne (by omega)]
  exact b.rest.empty _ (by omega)

/-- The room for the entry is part of that for the file. -/
lemma entry_room {a : Arg} (hroom : usedFor (args ++ [a]) ≤ size) :
    usedFor args + blocksFor (Dirent.SIZE * (args.length + 3)) ≤
      size + blocksFor (Dirent.SIZE * (args.length + 2)) := by
  have := usedFor_append args a
  omega

/-- The body of the loop over the arguments. -/
lemma addFile {a : Arg} {f : Source} (b : Built s args) (hslash : slash ∉ a.path)
    (hfile : a.file = some f) (hsize : a.bytes.length ≤ MAXFILE * BSIZE)
    (hcount : args.length + 3 ≤ ninodes) (hroom : usedFor (args ++ [a]) ≤ size) :
    ∃ s', addFile ROOTINO s a = some s' ∧ Built s' (args ++ [a]) := by
  have hbytes : f.chunks.flatten = a.bytes := by
    rw [Arg.bytes, hfile]
    rfl
  have hzero : blocksFor 0 = 0 := by decide
  obtain ⟨s₂, hrun, r₂, hfree₂, hino₂⟩ := b.addEntry a hslash hcount (entry_room hroom)
  have hempty := b.dataOf_next (dataOf args ROOTINO ++ entry (args.length + 2) a.name)
  have hall : ∃ s', iappendAll (args.length + 2) f.chunks s₂ = some s' ∧ _ :=
    r₂.iappendAll (by omega) (by omega) (by rw [hempty, hbytes]; simpa using hsize)
      (by rw [hempty, hbytes, List.length_nil, Nat.zero_add, hzero]; omega)
  obtain ⟨s₃, hall, r₃, hfree₃, hino₃⟩ := hall
  rw [hempty, hbytes, List.length_nil, Nat.zero_add, hzero] at hfree₃
  rw [hempty, hbytes, List.nil_append, ← dataOf_append] at r₃
  exact ⟨s₃, (hrun f hfile).trans hall,
    r₃, by rw [hino₃, hino₂, List.length_append, List.length_singleton],
    by omega⟩

/-- A file that is too large fails an assertion, and for one that needs more blocks than the image
has, a block is read behind its end. -/
lemma addFile_fits {a : Arg} {f : Source} (b : Built s args) (hslash : slash ∉ a.path)
    (hfile : a.file = some f) (hcount : args.length + 3 ≤ ninodes) (hfree : usedFor args ≤ size)
    (hrun : Mkfs.addFile ROOTINO s a = some s') :
    a.bytes.length ≤ MAXFILE * BSIZE ∧ usedFor (args ++ [a]) ≤ size := by
  have hR := ROOTINO_eq
  have hN := ninodes_eq
  have hS := Dirent.SIZE_eq
  have hM := MAXFILE_mul_BSIZE
  have hbytes : f.chunks.flatten = a.bytes := by
    rw [Arg.bytes, hfile]
    rfl
  have hzero : blocksFor 0 = 0 := by decide
  have hlen : Dirent.SIZE * (args.length + 2) + Dirent.SIZE = Dirent.SIZE * (args.length + 3) := rfl
  -- the entry
  obtain ⟨s₁, halloc, r₁, hfree₁, hino₁⟩ := b.addInode hcount
  obtain ⟨s₂', happ⟩ : ∃ s₂, Mkfs.iappend ROOTINO (entry (args.length + 2) a.name)
    s₁ = some s₂ := by
    rw [Mkfs.addFile, if_neg hslash, hfile] at hrun
    simp only [Option.bind_eq_bind, Option.bind_some, halloc] at hrun
    obtain ⟨s₂, happ, -⟩ := Option.bind_eq_some_iff.1 hrun
    exact ⟨s₂, happ⟩
  have hroom := (r₁.iappend_fits (by omega) (by omega) (by rw [length_root, hS]; omega)
    (by omega) happ).2
  rw [length_root, length_entry, hlen, hfree₁] at hroom
  -- the bytes
  have hused := usedFor_append args a
  obtain ⟨s₂, haddFile, r₂, hfree₂, hino₂⟩ := b.addEntry a hslash hcount hroom
  rw [haddFile f hfile] at hrun
  have hempty := b.dataOf_next (dataOf args ROOTINO ++ entry (args.length + 2) a.name)
  have hfits := r₂.iappendAll_fits (by omega) (by omega) (by rw [hempty]; simp) (by omega) hrun
  rw [hempty, hbytes, List.length_nil, Nat.zero_add, hzero] at hfits
  exact ⟨hfits.1, by omega⟩

lemma usedFor_mono (args rest : List Arg) : usedFor args ≤ usedFor (args ++ rest) := by
  have hmono : blocksFor (Dirent.SIZE * (args.length + 2)) ≤
      blocksFor (Dirent.SIZE * ((args ++ rest).length + 2)) :=
    blocksFor_mono (Nat.mul_le_mul_left _ (by simp))
  simp only [usedFor, List.map_append, List.sum_append]
  omega

/-- The loop over the arguments. -/
lemma addFiles (b : Built s args) (rest : List Arg) (hslash : ∀ a ∈ rest, slash ∉ a.path)
    (hfile : ∀ a ∈ rest, a.file.isSome = true)
    (hsize : ∀ a ∈ rest, a.bytes.length ≤ MAXFILE * BSIZE)
    (hcount : args.length + rest.length + 2 ≤ ninodes) (hroom : usedFor (args ++ rest) ≤ size) :
    ∃ s', rest.foldlM (Mkfs.addFile ROOTINO) s = some s' ∧ Built s' (args ++ rest) := by
  induction rest generalizing s args with
  | nil => exact ⟨s, rfl, by rwa [List.append_nil]⟩
  | cons a rest ih =>
      rw [List.length_cons] at hcount
      obtain ⟨f, hf⟩ := Option.isSome_iff_exists.1 (hfile a List.mem_cons_self)
      have happ : args ++ a :: rest = args ++ [a] ++ rest := by simp
      rw [happ] at hroom ⊢
      obtain ⟨s₁, hrun, b₁⟩ := b.addFile (hslash a List.mem_cons_self) hf
        (hsize a List.mem_cons_self) (by omega) ((usedFor_mono _ rest).trans hroom)
      obtain ⟨s', hrest, b'⟩ := ih b₁ (fun c hc => hslash c (List.mem_cons_of_mem a hc))
        (fun c hc => hfile c (List.mem_cons_of_mem a hc))
        (fun c hc => hsize c (List.mem_cons_of_mem a hc))
        (by rw [List.length_append, List.length_singleton]; omega) hroom
      refine ⟨s', ?_, b'⟩
      rw [List.foldlM_cons, hrun]
      exact hrest

/-- All files are small enough, and there was room for them, if the loop over the arguments ends. -/
lemma addFiles_fits (b : Built s args) (rest : List Arg) (hslash : ∀ a ∈ rest, slash ∉ a.path)
    (hfile : ∀ a ∈ rest, a.file.isSome = true) (hcount : args.length + rest.length + 2 ≤ ninodes)
    (hfree : usedFor args ≤ size) (hrun : rest.foldlM (Mkfs.addFile ROOTINO) s = some s') :
    (∀ a ∈ rest, a.bytes.length ≤ MAXFILE * BSIZE) ∧ usedFor (args ++ rest) ≤ size := by
  induction rest generalizing s args with
  | nil => exact ⟨by simp, by rwa [List.append_nil]⟩
  | cons a rest ih =>
      rw [List.length_cons] at hcount
      obtain ⟨f, hf⟩ := Option.isSome_iff_exists.1 (hfile a List.mem_cons_self)
      rw [show args ++ a :: rest = args ++ [a] ++ rest by simp]
      rw [List.foldlM_cons] at hrun
      obtain ⟨s₁, ha, hrun⟩ := Option.bind_eq_some_iff.1 hrun
      have hslasha := hslash a List.mem_cons_self
      obtain ⟨hmax, hroom⟩ := b.addFile_fits hslasha hf (by omega) hfree ha
      obtain ⟨s₁', ha', b₁⟩ := b.addFile hslasha hf hmax (by omega) hroom
      obtain rfl := Option.some.inj (ha.symm.trans ha')
      obtain ⟨hrest, hroom'⟩ := ih b₁ (fun c hc => hslash c (List.mem_cons_of_mem a hc))
        (fun c hc => hfile c (List.mem_cons_of_mem a hc))
        (by rw [List.length_append, List.length_singleton]; omega) hroom hrun
      exact ⟨List.forall_mem_cons.2 ⟨hmax, hrest⟩, hroom'⟩

end Built

/-! ## The start and the end -/

lemma foldl_wsect_zero (n : ℕ) (hdisk : s.disk = fun _ => Fs.zeroBlock) :
    (List.range n).foldl (fun s i => s.wsect i Fs.zeroBlock) s =
      { s with sectors := max s.sectors n } := by
  induction n with
  | zero => simp
  | succ n ih =>
      rw [List.range_succ, List.foldl_append, ih]
      have hmax : max (max s.sectors n) (n + 1) = max s.sectors (n + 1) := by omega
      have hupd : Function.update s.disk n Fs.zeroBlock = s.disk := by
        rw [hdisk]
        exact Function.update_eq_self n _
      simp only [List.foldl_cons, List.foldl_nil, Image.wsect, hmax, hupd]

lemma decode_zero (o : ℕ) : DInode.decode Fs.zeroBlock o = DInode.zero := by
  have h32 : ∀ j, Bytes.get32 Fs.zeroBlock j = 0 := Bytes.get32_zero
  have hbyte : ∀ j, Bytes.byteAt Fs.zeroBlock j = 0 := fun j => by
    rw [Bytes.byteAt]
    split <;> rfl
  have h16 : ∀ j, Bytes.get16 Fs.zeroBlock j = 0 := fun j => by rw [Bytes.get16, hbyte, hbyte]; rfl
  rw [DInode.decode, DInode.zero]
  simp only [h16, h32]
  rfl

/-- Before the first inode. -/
lemma rest_blank : Rest (blank sb.dataStart) (fun _ => []) := by
  have hblank : blank sb.dataStart =
    (Image.wsect ⟨fun _ => Fs.zeroBlock, size, sb.dataStart, sb.dataStart, 1⟩ 1
      superblock) := by
    rw [blank, foldl_wsect_zero _ rfl]
    rfl
  have hat : ∀ x < ninodes, dinodeAt (blank sb.dataStart).disk x = DInode.zero := fun x hx => by
    have hlo := (iblock_lt hx).1
    rw [hblank, dinodeAt, wsect_disk_of_ne (by omega), decode_zero]
  have hD := sb_dataStart
  have hnone : ∀ l, own sb (blank sb.dataStart).disk (dinodeAt (blank sb.dataStart).disk) l =
    none := fun l => by
    rw [own, if_neg]
    rintro ⟨hx, ht, -⟩
    exact ht (by rw [hat _ hx]; rfl)
  refine ⟨⟨⟨?_, ?_, ?_, fun b hb => ?_, ?_⟩, fun x hx ht => ?_, fun x hx ht => ?_⟩,
    fun x hx0 hx => ?_,
    fun x hx _ => hat x hx, ?_, fun _ _ => rfl, ?_⟩
  · rw [hblank]
    rfl
  · rw [hblank]
    rfl
  · rw [hblank]
    exact le_rfl
  · rw [hblank] at hb ⊢
    exact wsect_disk_of_ne (by change sb.dataStart ≤ b at hb; omega)
  · refine ⟨fun i j b hi => ?_, fun i b hi => ?_, fun b hlo hb => ?_, by simp, List.nodup_nil⟩
    · exact absurd hi (by simp [hnone])
    · exact absurd hi (by simp [hnone])
    · rw [hblank] at hb
      exact absurd hlo (not_le.2 hb)
  · exact absurd (by rw [hat x hx]; rfl) ht
  · exact absurd (by rw [hat x hx]; rfl) ht
  · rw [hblank] at hx
    exact absurd hx (by change ¬ x < 1; omega)
  · rw [hblank]
    decide
  · rw [hblank]
    exact Function.update_self 1 superblock fun _ => Fs.zeroBlock

/-- The root directory with its two entries. -/
lemma built_nil : ∃ s₀ s₁ s₂, ialloc T_DIR (blank sb.dataStart) = some (ROOTINO, s₀) ∧
    iappend ROOTINO (entry ROOTINO [46]) s₀ = some s₁ ∧
    iappend ROOTINO (entry ROOTINO [46, 46]) s₁ = some s₂ ∧ Built s₂ [] := by
  have hR := ROOTINO_eq
  have hentry : ∀ inum name, (entry inum name).length = 16 := fun _ _ => by
    simp [entry, Dirent.SIZE]
  have h16 : blocksFor 16 = 1 := by decide
  have h32 : blocksFor 32 = 1 := by decide
  have h0 : blocksFor 0 = 0 := by decide
  have hD := sb_dataStart
  have hS := Mkfs.size_eq
  have hM := MAXFILE_mul_BSIZE
  have hino : (blank sb.dataStart).freeinode = 1 := by
    rw [blank, foldl_wsect_zero _ rfl]
    rfl
  have hfree : (blank sb.dataStart).freeblock = sb.dataStart := by
    rw [blank, foldl_wsect_zero _ rfl]
    rfl
  have hkind : T_DIR = kind (blank sb.dataStart).freeinode := by
    rw [hino]
    rfl
  obtain ⟨s₀, halloc, r₀, hfree₀, hino₀⟩ := rest_blank.ialloc (by rw [hino]; decide)
    (by omega) hkind
  obtain ⟨s₁, happ₁, r₁, hfree₁, hino₁⟩ := r₀.iappend (x := ROOTINO) (p := entry ROOTINO [46])
    (by omega) (by omega) (by rw [hentry, List.length_nil]; omega)
    (by rw [hentry, List.length_nil, Nat.zero_add, h16, h0]; omega)
  rw [hentry, List.length_nil, Nat.zero_add, h16, h0] at hfree₁
  have hself : Function.update (fun _ => []) ROOTINO ([] ++ entry ROOTINO [46]) ROOTINO =
    entry ROOTINO [46] :=
    Function.update_self ..
  obtain ⟨s₂, happ₂, r₂, hfree₂, hino₂⟩ := r₁.iappend (x := ROOTINO) (p := entry ROOTINO [46, 46])
    (by omega) (by omega) (by rw [hself, hentry, hentry]; omega)
    (by rw [hself, hentry, hentry, h32, h16]; omega)
  rw [hself, hentry, hentry, h32, h16] at hfree₂
  rw [Function.update_idem, hself] at r₂
  refine ⟨s₀, s₁, s₂, by rw [halloc, hino, hR], happ₁, happ₂,
    ?_, by rw [hino₂, hino₁, hino₀, hino]; rfl, ?_⟩
  · convert r₂ using 1
    funext x
    by_cases hx : x = ROOTINO
    · subst hx
      rw [Function.update_self, dataOf, if_pos rfl]
      simp [rootEntries]
    · rw [Function.update_of_ne hx, dataOf, if_neg hx]
      simp
  · rw [usedFor, show Dirent.SIZE * (List.length ([] : List Arg) + 2) = 32 from rfl, h32,
      List.map_nil, List.sum_nil]
    omega

/-- The image of some arguments: the root directory has its rounded size and the bitmap is
written. -/
def Finished (s : Image) (args : List Arg) : Prop :=
  ∃ s₀, Built s₀ args ∧ s.sectors = size ∧ (∀ c, c = 1 ∨ sb.dataStart ≤ c → s.disk c = s₀.disk c) ∧
    ∀ x < ninodes, dinodeAt s.disk x =
      if x = ROOTINO then { dinodeAt s₀.disk x with
        size := UInt32.ofNat ((Dirent.SIZE * (args.length + 2) / BSIZE + 1) * BSIZE) }
      else dinodeAt s₀.disk x

/-- The end of `main`. -/
lemma Built.finish {args : List Arg} (b : Built s args) (hcount : args.length + 2 ≤ ninodes)
    (hroom : usedFor args ≤ size) :
    ∃ s₁ s', fixSize ROOTINO s = some s₁ ∧ balloc s₁.usedblocks s₁ = some s' ∧
    Finished s' args := by
  have hR := ROOTINO_eq
  have hN := ninodes_eq
  have hD := sb_dataStart
  have hSz := Dirent.SIZE_eq
  have hS := Mkfs.size_eq
  have hsect := b.rest.laid.owned.sectors
  have hfi := b.freeinode
  have hb := b.freeblock
  have hused := b.rest.laid.owned.used
  have hrin : rinode ROOTINO s = some (dinodeAt s.disk ROOTINO) := by
    rw [rinode, show s.rsect (i2b ROOTINO) = some (s.disk (IBLOCK ROOTINO)) from
      rsect_eq (by change 2 < s.sectors; omega)]
    rfl
  have hsize : (dinodeAt s.disk ROOTINO).size.toNat = Dirent.SIZE * (args.length + 2) := by
    rw [(b.rest.inode ROOTINO (by omega) (by omega)).2.2, Built.length_root,
      UInt32.toNat_ofNat_of_lt' (by rw [UInt32.size, hSz]; omega)]
  obtain ⟨s₁, hw, hsect₁, hused₁, hfree₁, hino₁, hdisk₁, hat⟩ := winode_eq (x := ROOTINO) (s := s)
    { dinodeAt s.disk ROOTINO with
      size := UInt32.ofNat ((Dirent.SIZE * (args.length + 2) / BSIZE + 1) * BSIZE) }
      (by omega) hsect
  refine ⟨s₁, _, ?_, if_pos (by omega), s, b, ?_, fun c hc => ?_, fun x hx => ?_⟩
  · rw [fixSize, hrin]
    simp only [Option.bind_eq_bind, Option.bind_some, hsize, hw]
  · have h28 : ninodes / IPB + 3 = 28 := rfl
    exact (max_eq_left (show ninodes / IPB + 3 + 1 ≤ s₁.sectors by omega)).trans
      (hsect₁.trans hsect)
  · have h28 : ninodes / IPB + 3 = 28 := rfl
    rw [wsect_disk_of_ne (by omega), hdisk₁ c (by omega)]
  · have hx' : x < sb.ninodes := hx
    refine (dinodeAt_update hx' le_rfl).trans ?_
    rw [hat]
    split
    · rename_i hxr
      rw [hxr]
    · rfl

/-- `main` runs the loop over the arguments on a root directory with two entries. -/
lemma main_eq (args : List Arg) : ∃ s₀, Built s₀ [] ∧ main args = (do
    let s ← args.foldlM (addFile ROOTINO) s₀
    let s ← fixSize ROOTINO s
    balloc s.usedblocks s) := by
  obtain ⟨s₀, s₁, s₂, halloc, happ₁, happ₂, b⟩ := built_nil
  have husedblocks : ninodes / IPB + 3 + bitblocks = sb.dataStart := rfl
  refine ⟨s₂, b, ?_⟩
  rw [main, if_neg (by rw [husedblocks]; decide), husedblocks, halloc]
  simp only [Option.bind_eq_bind, Option.bind_some, ne_eq, not_true_eq_false,
    if_false, happ₁, happ₂]

/-- `main` on arguments that it accepts. -/
lemma main_finished {args : List Arg} (hslash : ∀ a ∈ args, slash ∉ a.path)
    (hfile : ∀ a ∈ args, a.file.isSome = true)
    (hsize : ∀ a ∈ args, a.bytes.length ≤ MAXFILE * BSIZE) (hcount : args.length + 2 ≤ ninodes)
    (hroom : usedFor args ≤ size) :
    ∃ s, main args = some s ∧ Finished s args := by
  obtain ⟨s₂, b, hmain⟩ := main_eq args
  obtain ⟨s₃, hfold, b₃⟩ := b.addFiles args hslash hfile hsize (by simpa using hcount)
    (by rw [List.nil_append]; exact hroom)
  rw [List.nil_append] at b₃
  obtain ⟨s₄, s, hfix, hballoc, hfin⟩ := b₃.finish hcount hroom
  refine ⟨s, ?_, hfin⟩
  rw [hmain]
  simp only [Option.bind_eq_bind, Option.bind_some, hfold, hfix]
  exact hballoc

end Xv6.Mkfs
