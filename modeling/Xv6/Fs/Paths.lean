import Mathlib.Data.List.DropRight
import Xv6.Fs.Directory

/-!
# Path names

A path names the inode that one finds by looking up its components one after another: the non-empty
parts between slashes, as far as a directory entry keeps them.  `namei` returns it, and
`nameiparent` stops at the last component.  Both lock each inode on the way in order to look at it,
and `ilock` panics if the inode is free.  That happens to a process in a directory that has been
removed, since the `..` of a removed directory may name a directory that has been removed, too.
-/

namespace Xv6

open Lib FsState

variable {sb : Superblock} {s s' t t' : FsState} {e e' : InodeId} {x y inum : ℕ}
    {path rest name : Name}
  {L : List InodeId}

/-! ## Components -/

/-- The non-empty parts of a path between slashes, as far as a directory entry keeps them. -/
def components (path : Name) : List Name :=
  ((path.splitOn slash).filter (· ≠ [])).map (·.take DIRSIZ)

/-- The names that `skipelem` gives one after another; the first argument bounds their number. -/
def skipelems : ℕ → Name → List Name
  | 0, _ => []
  | fuel + 1, path =>
      match skipelem path with
      | none => []
      | some (rest, name) => name :: skipelems fuel rest

lemma components_slash : components (slash :: path) = components path := by
  simp [components, List.splitOn, List.splitOnP_cons_eq_if_modifyHead]

lemma components_dropWhile : components (path.dropWhile (· = slash)) = components path := by
  induction path with
  | nil => rfl
  | cons a path ih =>
      rw [List.dropWhile_cons]
      split
      · rename_i ha
        obtain rfl : a = slash := by simpa using ha
        rw [ih, components_slash]
      · rfl

/-- A path that starts with a component. -/
lemma components_append {w r : Name} (hw : ∀ a ∈ w, a ≠ slash) (hne : w ≠ [])
    (hr : r.dropWhile (· ≠ slash) = r) : components (w ++ r) = w.take DIRSIZ :: components r := by
  have hno : ∀ a ∈ w, (a == slash) = false := by simpa using hw
  cases r with
  | nil =>
      rw [List.append_nil, components, List.splitOn, List.splitOnP_eq_singleton hno]
      simp [hne, components]
  | cons a r =>
      obtain rfl : a = slash := by
        by_contra ha
        have := congrArg List.length hr
        rw [List.dropWhile_cons_of_pos (by simpa using ha)] at this
        have := (List.dropWhile_suffix (l := r) (· ≠ slash)).length_le
        simp only [List.length_cons] at *
        omega
      rw [components_slash, components, List.splitOn, List.splitOnP_append_cons_of_forall_mem hno
        slash (by simp)]
      simp [hne, components, List.splitOn]

lemma components_of_skipelem_none (h : skipelem path = none) : components path = [] := by
  rw [skipelem] at h
  split at h
  · rename_i hnil
    rw [← components_dropWhile, hnil]
    rfl
  · exact absurd h (by simp)

/-- `skipelem` takes the first component off a path. -/
lemma components_of_skipelem (h : skipelem path = some (rest, name)) :
    components path = name :: components rest ∧ rest.length < path.length ∧
      rest.dropWhile (· = slash) = rest := by
  rw [skipelem] at h
  split at h
  · exact absurd h (by simp)
  rename_i hne
  obtain ⟨p, hp⟩ : ∃ p, path.dropWhile (· = slash) = p := ⟨_, rfl⟩
  rw [hp] at h hne
  simp only [Option.some.injEq, Prod.mk.injEq] at h
  obtain ⟨rfl, rfl⟩ := h
  have hlen : p.length ≤ path.length := hp ▸ (List.dropWhile_suffix _).length_le
  -- the first byte of `p` is no slash
  have hword : p.takeWhile (· ≠ slash) ≠ [] := by
    cases p with
    | nil => exact absurd rfl hne
    | cons a p =>
        have ha : a ≠ slash := by
          have := List.head?_dropWhile_not (fun a => decide (a = slash)) path
          simp only [hp] at this
          simpa using this
        rw [List.takeWhile_cons_of_pos (by simpa using ha)]
        exact List.cons_ne_nil _ _
  constructor
  · rw [components_dropWhile, ← @components_dropWhile path, hp]
    nth_rewrite 1 [← List.takeWhile_append_dropWhile (p := fun a => decide (a ≠ slash)) (l := p)]
    refine components_append (fun a ha => by simpa using List.mem_takeWhile_imp ha) hword ?_
    exact List.dropWhile_idempotent _ _
  constructor
  · have h₁ := (List.dropWhile_suffix (l := p.dropWhile (· ≠ slash)) (· = slash)).length_le
    have h₂ := congrArg List.length (List.takeWhile_append_dropWhile (p := fun a =>
      decide (a ≠ slash)) (l := p))
    rw [List.length_append] at h₂
    have h₃ := List.length_pos_iff.2 hword
    omega
  · exact List.dropWhile_idempotent _ _

/-- A path that does not start with a slash has a component. -/
lemma components_ne_nil (hp : path.dropWhile (· = slash) = path) (hne : path ≠ []) :
    components path ≠ [] := by
  cases hskip : skipelem path with
  | none =>
      rw [skipelem, hp, if_neg hne] at hskip
      exact absurd hskip (by simp)
  | some r =>
      rw [(components_of_skipelem hskip).1]
      exact List.cons_ne_nil _ _

/-- The names that `skipelem` gives are the components of the path. -/
lemma skipelems_eq_components {fuel : ℕ} (h : path.length ≤ fuel) :
    skipelems fuel path = components path := by
  induction fuel generalizing path with
  | zero =>
      obtain rfl := List.length_eq_zero_iff.1 (Nat.le_zero.1 h)
      rfl
  | succ fuel ih =>
      rw [skipelems]
      cases hskip : skipelem path with
      | none => exact (components_of_skipelem_none hskip).symm
      | some r =>
          obtain ⟨rest, name⟩ := r
          obtain ⟨hcomp, hlt, -⟩ := components_of_skipelem hskip
          rw [hcomp]
          exact congrArg _ (ih (by omega))

/-! ## Looking up components -/

/-- The inode that one finds from inode `x` on by looking up names one after another. -/
def FsState.walk (s : FsState) : ℕ → List Name → Option ℕ
  | x, [] => some x
  | x, name :: names =>
      if (s.node x).type = T_DIR then (s.binding x name).bind fun y => s.walk y names else none

/-- The directory in which the last of the names is to be looked up, and this name. -/
def FsState.walkParent (s : FsState) (x : ℕ) (names : List Name) : Option (ℕ × Name) :=
  names.getLast?.bind fun last => (s.walk x names.dropLast).bind fun d =>
    if (s.node d).type = T_DIR then some (d, last) else none

lemma walk_of_not_dir {names : List Name} (ht : (s.node x).type ≠ T_DIR) :
    s.walk x (name :: names) = none := by
  rw [walk, if_neg ht]

lemma walk_of_dir {names : List Name} (ht : (s.node x).type = T_DIR) :
    s.walk x (name :: names) = (s.binding x name).bind fun y => s.walk y names := by
  rw [walk, if_pos ht]

lemma walkParent_of_not_dir {names : List Name} (ht : (s.node x).type ≠ T_DIR) :
    s.walkParent x (name :: names) = none := by
  cases names with
  | nil => simp [walkParent, walk, ht]
  | cons n names => simp [walkParent, walk_of_not_dir ht]

lemma walkParent_singleton (ht : (s.node x).type = T_DIR) :
    s.walkParent x [name] = some (x, name) := by
  simp [walkParent, walk, ht]

lemma walkParent_of_dir {names : List Name} (ht : (s.node x).type = T_DIR) (hne : names ≠ []) :
    s.walkParent x (name :: names) = (s.binding x name).bind fun y => s.walkParent y names := by
  cases names with
  | nil => exact absurd rfl hne
  | cons n names =>
      rw [walkParent, List.getLast?_cons_cons, List.dropLast_cons_cons, walk_of_dir ht]
      cases s.binding x name with
      | none => simp
      | some y => rfl

/-- Looking up all names is looking up the last one in the directory that the others lead to. -/
lemma walk_eq_some_iff {names : List Name} {i : ℕ} (hne : names ≠ []) : s.walk x names = some i ↔
    ∃ d name, s.walkParent x names = some (d, name) ∧ (s.node d).type = T_DIR ∧
    s.binding d name = some i := by
  induction names generalizing x with
  | nil => exact absurd rfl hne
  | cons n names ih =>
      by_cases ht : (s.node x).type = T_DIR
      · by_cases hnil : names = []
        · subst hnil
          simp [walkParent_singleton ht, walk, ht]
        · rw [walk_of_dir ht, walkParent_of_dir ht hnil]
          cases s.binding x n with
          | none => simp
          | some y => exact ih hnil
      · simp [walk_of_not_dir ht, walkParent_of_not_dir ht]

/-! ## What a lookup asks for -/

/-- A lookup of these names from inode `x` on comes to an end: no inode in which a name is looked up
is free, and no directory in which a name is missing ends within an entry. -/
def FsState.Passable (s : FsState) (parent : Bool) : ℕ → List Name → Prop
  | _, [] => True
  | x, name :: names =>
    (s.node x).type ≠ 0 ∧ ((s.node x).type = T_DIR → ¬ (parent = true ∧ names = []) →
      (s.binding x name = none → (s.node x).size.toNat % Dirent.SIZE = 0) ∧
      ∀ y ∈ s.binding x name, s.Passable parent y names)

instance FsState.decidablePassable (s : FsState) (parent : Bool) :
    ∀ (x : ℕ) (names : List Name), Decidable (s.Passable parent x names)
  | _, [] => isTrue trivial
  | x, name :: names => by
      have := fun y => s.decidablePassable parent y names
      unfold FsState.Passable
      infer_instance

section Passable

variable {parent : Bool} {names : List Name}

lemma passable_of_not_dir (h0 : (s.node x).type ≠ 0) (ht : (s.node x).type ≠ T_DIR) :
    s.Passable parent x (name :: names) :=
  ⟨h0, fun h => absurd h ht⟩

lemma passable_of_last (ht : (s.node x).type = T_DIR) : s.Passable true x [name] :=
  ⟨by rw [ht]; decide, fun _ h => absurd ⟨rfl, rfl⟩ h⟩

lemma passable_of_absent (ht : (s.node x).type = T_DIR) (hne : ¬ (parent = true ∧ names = []))
    (hb : s.binding x name = none) :
    s.Passable parent x (name :: names) ↔ (s.node x).size.toNat % Dirent.SIZE = 0 := by
  rw [Passable, hb]
  exact ⟨fun h => (h.2 ht hne).1 rfl, fun h =>
    ⟨by rw [ht]; decide, fun _ _ => ⟨fun _ => h, by simp⟩⟩⟩

lemma passable_of_bound (ht : (s.node x).type = T_DIR) (hne : ¬ (parent = true ∧ names = []))
    (hb : s.binding x name = some y) : s.Passable parent x (name :: names) ↔
    s.Passable parent y names := by
  rw [Passable, hb]
  exact ⟨fun h => (h.2 ht hne).2 y rfl, fun h => ⟨by rw [ht]; decide, fun _ _ =>
    ⟨by simp, by simpa using h⟩⟩⟩

end Passable

/-- The program panics, or it goes to sleep for good. -/
def Stops {α : Type} (p : Sys α) (s : FsState) : Prop := ∃ r s', p.run Act.exec s = .error r s'

section Stops

variable {α β : Type} {p : Sys α} {f : α → Sys β} {a : α}

lemma Stops.bind (h : Stops p s) : Stops (p >>= f) s := by
  obtain ⟨r, s', hrun⟩ := h
  refine ⟨r, s', ?_⟩
  rw [Prog.run_bind]
  exact bind_of_error hrun

lemma Yields.stops (h : Yields p s a t) (hf : Stops (f a) t) : Stops (p >>= f) s := by
  obtain ⟨r, s', hrun⟩ := hf
  exact ⟨r, s', h.run_bind.trans hrun⟩

end Stops

/-- State `t` differs from `s` in the inode cache only; the running process has the references `L`,
and no inode but `b` is locked. -/
structure Walking (sb : Superblock) (s : FsState) (L : List InodeId) (b : Option InodeId)
    (t : FsState) :
    Prop where
  inv : Inv sb L t
  home : t.home = s.home
  held : t.held = []
  disk : sb.size ≤ t.disksize
  file : t.file = s.file
  proc : t.proc = s.proc
  inums : ∀ e, Held [] s e → (t.inode e).inum = (s.inode e).inum
  locked : ∀ e, (t.inode e).busy = true → b = some e

namespace Walking

variable {b b' : Option InodeId} {v : Inode} {L' : List InodeId}

lemma node (c : Walking sb s L b t) (x : ℕ) : t.node x = s.node x := node_congr c.home x

lemma contents (c : Walking sb s L b t) (x : ℕ) : t.contents x = s.contents x := by
  rw [FsState.contents, c.node, c.home, FsState.contents]

lemma perm (c : Walking sb s L b t) (h : L.Perm L') : Walking sb s L' b t :=
  { c with inv := c.inv.perm h }

/-- What files and processes refer to is still in the cache. -/
lemma held_of (c : Walking sb s L b t) (h : Held [] s e) : Held L' t e := by
  rcases h with h | h | h
  · exact absurd h (by simp)
  · exact .inr (.inl (by rwa [c.file]))
  · exact .inr (.inr (by rwa [c.proc]))

/-- An entry has changed, but it is still for the same inode if a file or a process refers to it. -/
lemma setInode (c : Walking sb s L b t) (i : Inv sb L' (t.setInode e v))
    (hinum : Held [] s e → v.inum = (t.inode e).inum) (hbusy : v.busy = true → b' = some e)
    (hb : ∀ e', e' ≠ e → b = some e' → b' = some e') : Walking sb s L' b' (t.setInode e v) := by
  refine ⟨i, c.home, c.held, c.disk, c.file, c.proc, fun e' he' => ?_, fun e' he' => ?_⟩
  · by_cases hne : e' = e
    · subst hne
      rw [setInode_inode_self, hinum he', c.inums _ he']
    · rw [setInode_inode_of_ne hne, c.inums e' he']
  · by_cases hne : e' = e
    · subst hne
      rw [setInode_inode_self] at he'
      exact hbusy he'
    · rw [setInode_inode_of_ne hne] at he'
      exact hb e' hne (c.locked e' he')

lemma unlocked (c : Walking sb s L none t) (e : InodeId) : (t.inode e).busy = false := by
  by_contra hbusy
  exact absurd (c.locked e (by simpa using hbusy)) (by simp)

/-- A reference has been taken. -/
lemma referenced (c : Walking sb s L b t) (i : Inv sb L' t') (g : Referenced t t' e x) :
    Walking sb s L' b t' := by
  rw [g.only] at i ⊢
  refine c.setInode i (fun he => ?_) (fun hbusy => c.locked e (g.busy hbusy)) fun _ _ h => h
  rw [g.kept (c.inv.ref_pos (c.held_of he))]

/-- A reference that is given up is not the last one to an inode without links. -/
lemma not_last (c : Walking sb s (e :: L) b t) (hroot : Rooted sb s) :
    ¬ ((t.inode e).ref = 1 ∧ (t.inode e).valid = true ∧ (t.inode e).nlink = 0) := by
  rintro ⟨href, hvalid, hlink⟩
  obtain ⟨ino, cons⟩ := c.inv.content
  have l : Live t e (t.inode e).inum := ⟨by omega, hvalid, rfl⟩
  have htype := c.inv.node_type l
  rw [c.node] at htype
  rcases hroot _ (c.inv.inum_lt l) htype with ha | ⟨e', he', heq⟩
  · rw [← c.node, c.inv.node_of_live l] at ha
    exact ha hlink
  obtain rfl : e' = e :=
    cons.cached.uniq e' e (c.inv.ref_pos (c.held_of he')) (by omega) ((c.inums e' he').trans heq)
  -- the entry would have two references at least
  have hcount := c.inv.counts e'
  have hpos := (c.held_of he' : Held [] t e').count_pos
  rw [List.count_cons_self, href] at hcount
  rw [List.count_nil] at hpos
  omega

lemma lock_eq (c : Walking sb s (e :: L) none t) :
    (Act.ilock e).exec t = .ok () (t.setInode e { t.inode e with busy := true }) := by
  have href : 0 < (t.inode e).ref := c.inv.ref_pos (.inl (by simp))
  simp [Act.exec, c.unlocked e, show ¬ (t.inode e).ref < 1 by omega]

/-- `ilock` of an entry that is not valid reads the inode, and it panics if the inode is free. -/
lemma run_ilock (c : Walking sb s (e :: L) none t) (hvalid : (t.inode e).valid = false)
    (hm : (Fs.ilock e).Meets Act.exec (Ample sb) t) :
    (Fs.ilock e).run Act.exec t =
      if (s.node (t.inode e).inum).type = 0 then .error (.panic "ilock: no type") (t.setInode e
        { t.inode e with toDInode := s.node (t.inode e).inum, busy := true, valid := true })
      else .ok () (t.setInode e
        { t.inode e with toDInode := s.node (t.inode e).inum, busy := true, valid := true }) := by
  obtain ⟨ino, cons⟩ := c.inv.content
  have href : 0 < (t.inode e).ref := c.inv.ref_pos (.inl (by simp))
  have hdev := cons.cached.dev e href
  have hblk : IBLOCK (t.inode e).inum < sb.dataStart := sb.iblock_lt_dataStart
    (cons.cached.inum e href)
  have hsize := cons.mounted.sound.room
  have hread := (hm.right (Yields.act c.lock_eq)).right Yields.getInode
  rw [setInode_inode_self, if_pos hvalid, hdev] at hread
  have hspare : t.Spare (IBLOCK (t.inode e).inum) := by
    have hbread := hread.left
    rw [Fs.bread, if_neg (by simp)] at hbread
    exact hbread.1
  have hhome : dinodeAt t.blk (t.inode e).inum = s.node (t.inode e).inum := by
    rw [dinodeAt, cons.mounted.home_eq hblk, ← c.node]
    rfl
  rw [← hhome]
  refine Yields.run_ilock c.held hspare href (c.unlocked e) hvalid hdev rfl ?_
  have := c.disk
  rw [Superblock.logStart] at hsize
  omega

/-- Locking an inode that is not free. -/
lemma ilock (c : Walking sb s (e :: L) none t) (ht : (s.node (t.inode e).inum).type ≠ 0)
    (hm : (Fs.ilock e).Meets Act.exec (Ample sb) t) :
    ∃ t', Yields (Fs.ilock e) t () t' ∧ Walking sb s (e :: L) (some e) t' ∧
    Live t' e (t.inode e).inum ∧
      (t'.inode e).busy = true := by
  -- in both cases nothing but the entry changes
  have hdone : ∀ v, v.inum = (t.inode e).inum → v.busy = true → Yields (Fs.ilock e) t ()
    (t.setInode e v) →
      ∃ t', Yields (Fs.ilock e) t () t' ∧ Walking sb s (e :: L) (some e) t' ∧
      Live t' e (t.inode e).inum ∧
        (t'.inode e).busy = true := by
    intro v hinum hv hy
    obtain ⟨hinv, hlive⟩ := hy.post (Q := fun _ t' => Inv sb (e :: L) t' ∧
      Live t' e (t.inode e).inum) (Safe.ilock c.inv fun t' i' _ _ l' _ => ⟨i', l'⟩) hm
    exact ⟨_, hy, c.setInode hinv (fun _ => hinum) (fun _ => rfl) (fun _ _ h => absurd h (by simp)),
      hlive,
      by rw [setInode_inode_self, hv]⟩
  by_cases hvalid : (t.inode e).valid = true
  · refine hdone { t.inode e with busy := true } rfl rfl (Yields.seq (.act c.lock_eq)
      (Yields.getInode.seq ?_))
    rw [setInode_inode_self, if_neg (by simp [hvalid])]
    exact .pure
  · have hrun := c.run_ilock (by simpa using hvalid) hm
    rw [if_neg ht] at hrun
    exact hdone { t.inode e with toDInode := _, busy := true, valid := true } rfl rfl hrun

/-- Locking an inode that is free. -/
lemma ilock_stops (c : Walking sb s (e :: L) none t) (ht : (s.node (t.inode e).inum).type = 0)
    (hm : (Fs.ilock e).Meets Act.exec (Ample sb) t) : Stops (Fs.ilock e) t := by
  have hvalid : (t.inode e).valid = false := by
    by_contra hv
    have l : Live t e (t.inode e).inum :=
      ⟨c.inv.ref_pos (.inl (by simp)), by simpa using hv, rfl⟩
    exact c.inv.node_type l (by rw [c.node, ht])
  exact ⟨_, _, (c.run_ilock hvalid hm).trans (if_pos ht)⟩

lemma iunlock (c : Walking sb s (e :: L) (some e) t) (hbusy : (t.inode e).busy = true) :
    ∃ t', Yields (Fs.iunlock e) t () t' ∧ Walking sb s (e :: L) none t' ∧
      ∀ e', (t'.inode e').inum = (t.inode e').inum := by
  have href : 0 < (t.inode e).ref := c.inv.ref_pos (.inl (by simp))
  have hy : Yields (Fs.iunlock e) t () (t.setInode e { t.inode e with busy := false }) :=
    .act (x := .iunlock e) (by simp [Act.exec, hbusy, show ¬ (t.inode e).ref < 1 by omega])
  have hinv := hy.post (Q := fun _ t' => Inv sb (e :: L) t')
    (Safe.iunlock_inv c.inv fun t' i' _ => i') ⟨trivial, fun _ _ _ => trivial⟩
  refine ⟨_, hy, c.setInode hinv (fun _ => rfl) (fun h => absurd h (by simp)) (fun e' hne h => ?_),
    fun e' => ?_⟩
  · exact absurd (Option.some_inj.1 h).symm hne
  · by_cases he : e' = e
    · rw [he, setInode_inode_self]
    · rw [setInode_inode_of_ne he]

/-- Giving up a reference. -/
lemma iput (c : Walking sb s (e :: L) none t) (hroot : Rooted sb s)
    (hm : (Fs.iput e).Meets Act.exec (Ample sb) t) :
    ∃ t', Yields (Fs.iput e) t () t' ∧ Walking sb s L none t' ∧
      ∀ e', (t'.inode e').inum = (t.inode e').inum := by
  have hput : (Act.iputStart e).exec t =
      .ok false (t.setInode e { t.inode e with ref := (t.inode e).ref - 1 }) := by
    simp only [Act.exec, if_neg (c.not_last hroot)]
  have hy : Yields (Fs.iput e) t () _ := Yields.seq (.act hput) .pure
  have hinv := hy.post (Q := fun _ t' => Inv sb L t') (Safe.iput c.inv fun t' i' _ => i') hm
  refine ⟨_, hy, c.setInode hinv (fun _ => rfl) (fun h => c.locked e h)
    (fun _ _ h => h), fun e' => ?_⟩
  by_cases he : e' = e
  · rw [he, setInode_inode_self]
  · rw [setInode_inode_of_ne he]

lemma iunlockput (c : Walking sb s (e :: L) (some e) t) (hroot : Rooted sb s)
    (hbusy : (t.inode e).busy = true) (hm : (Fs.iunlockput e).Meets Act.exec (Ample sb) t) :
    ∃ t', Yields (Fs.iunlockput e) t () t' ∧ Walking sb s L none t' ∧
      ∀ e', (t'.inode e').inum = (t.inode e').inum := by
  obtain ⟨t₁, hy₁, c₁, h₁⟩ := c.iunlock hbusy
  obtain ⟨t₂, hy₂, c₂, h₂⟩ := c₁.iput hroot (hm.right hy₁)
  exact ⟨t₂, hy₁.seq hy₂, c₂, fun e' => (h₂ e').trans (h₁ e')⟩

/-- Looking up one component. -/
lemma dirlookup (c : Walking sb s L b t) (l : Live t e x) (ht : (t.inode e).type = T_DIR)
    (hm : (Fs.dirlookup e name).Meets Act.exec (Ample sb) t) :
    (s.binding x name = none ∧ (s.node x).size.toNat % Dirent.SIZE = 0 ∧
      Yields (Fs.dirlookup e name) t none t) ∨
    (s.binding x name = none ∧ (s.node x).size.toNat % Dirent.SIZE ≠ 0 ∧
      Stops (Fs.dirlookup e name) t) ∨ ∃ y e' off t', s.binding x name = some y ∧
        Yields (Fs.dirlookup e name) t (some (e', off)) t' ∧
      Walking sb s (e' :: L) b t' ∧ (t'.inode e').inum = y ∧ (t'.inode e).busy =
        (t.inode e).busy := by
  have hbind : t.binding x name = s.binding x name := by rw [binding, c.contents, binding]
  have hlen : (t.contents x).length = (s.node x).size.toNat := by rw [length_contents, c.node]
  have hd : OpenDir sb t e x := ⟨c.inv.blocksOwned, l, c.held, ht⟩
  rcases hd.dirlookup c.disk hm with ⟨r, t', hy, hl, hwhole⟩ | ⟨hl, hpart, t', hrun⟩
  · obtain ⟨hnone, rfl, rfl⟩ | ⟨y, e', k, hsome, rfl, -, g⟩ := binding_of_looked hl
    · exact .inl ⟨hbind ▸ hnone, hlen ▸ hwhole rfl, hy⟩
    · have hinv := hy.post (Q := fun r t' => ∀ e' off, r = some (e', off) → Inv sb (e' :: L) t')
        (Safe.dirlookup c.inv l (fun _ e' off h => absurd h (by simp))
          fun ip off s' _ f e' off' h => by cases h; exact f.inv) hm e' _ rfl
      refine .inr (.inr ⟨y, e', _, t', hbind ▸ hsome, hy, c.referenced hinv g, g.inum, ?_⟩)
      by_cases he : e = e'
      · subst he
        rw [g.kept l.ref]
      · rw [g.only, setInode_inode_of_ne he]
  · refine .inr (.inl ⟨?_, hlen ▸ hpart, _, t', hrun⟩)
    obtain ⟨hnone, -, -⟩ | ⟨y, e', k, -, hno, -, -⟩ := binding_of_looked hl
    · exact hbind ▸ hnone
    · exact absurd hno (by simp)

end Walking

/-! ## `namex` -/

/-- What `namex` returns for the names that it looks up from inode `x` on. -/
def Answers (s : FsState) (parent : Bool) (x : ℕ) (names : List Name) (r : Option (InodeId × Name))
    (t : FsState) : Prop :=
  if parent = true then r.map (fun p => ((t.inode p.1).inum, p.2)) = s.walkParent x names
  else r.map (fun p => (t.inode p.1).inum) = s.walk x names

/-- What comes of a lookup of these names from inode `x` on. -/
inductive Looks (sb : Superblock) (s : FsState) (L : List InodeId) (parent : Bool) (x : ℕ)
    (names : List Name) (p : Sys (Option (InodeId × Name))) (t : FsState) : Prop
  | returns {r : Option (InodeId × Name)} {t' : FsState} (hp : s.Passable parent x names)
    (hy : Yields p t r t')
      (c : Walking sb s (r.toList.map Prod.fst ++ L) none t') (ha : Answers s parent x names r t')
  | stops (hp : ¬ s.Passable parent x names) (h : Stops p t)

section Answers

variable {parent : Bool}

/-- No inode is found where the lookup would be in something else than a directory. -/
lemma answers_of_not_dir {names : List Name} (ht : (s.node x).type ≠ T_DIR) :
    Answers s parent x (name :: names) none t := by
  rw [Answers]
  split
  · rw [walkParent_of_not_dir ht]
    rfl
  · rw [walk_of_not_dir ht]
    rfl

/-- The first component is looked up, and then the others, if it is not the last one of the
lookup. -/
lemma answers_of_dir {names : List Name} {r : Option (InodeId × Name)}
    (ht : (s.node x).type = T_DIR) (hne : parent = true → names ≠ [])
    (hnone : s.binding x name = none → r = none) (hsome : ∀ y, s.binding x name = some y →
      Answers s parent y names r t) :
    Answers s parent x (name :: names) r t := by
  rw [Answers]
  cases hb : s.binding x name with
  | none =>
      rw [hnone hb]
      split
      · rename_i hp
        rw [walkParent_of_dir ht (hne hp), hb]
        rfl
      · rw [walk_of_dir ht, hb]
        rfl
  | some y =>
      have hy := hsome y hb
      rw [Answers] at hy
      split
      · rename_i hp
        rw [if_pos hp] at hy
        rw [walkParent_of_dir ht (hne hp), hb, hy]
        rfl
      · rename_i hp
        rw [if_neg hp] at hy
        rw [walk_of_dir ht, hb, hy]
        rfl

end Answers

/-- A lookup after something else. -/
lemma Looks.seq {α : Type} {parent : Bool} {names : List Name} {p : Sys α}
    {f : α → Sys (Option (InodeId × Name))} {a : α} (hy : Yields p t a t')
    (h : Looks sb s L parent x names (f a) t') :
    Looks sb s L parent x names (p >>= f) t := by
  cases h with
  | returns hp hy' c ha => exact .returns hp (hy.seq hy') c ha
  | stops hp h => exact .stops hp (hy.stops h)

namespace Walking

variable {parent : Bool} {fuel : ℕ}

lemma namexEnd (c : Walking sb s (e :: L) none t) (hroot : Rooted sb s)
    (hm : (Fs.namexEnd parent e name).Meets Act.exec (Ample sb) t) :
    Looks sb s L parent (t.inode e).inum [] (Fs.namexEnd parent e name) t := by
  rw [Fs.namexEnd] at hm ⊢
  cases parent with
  | true =>
      rw [if_pos rfl] at hm ⊢
      obtain ⟨t', hy, c', -⟩ := c.iput hroot hm.left
      exact .returns (r := none) trivial (hy.seq .pure) c' rfl
  | false =>
      rw [if_neg (by decide)]
      exact .returns (r := some (e, name)) trivial .pure c rfl

/-- The loop of `namex` looks up the components of the path. -/
lemma namexLoop (c : Walking sb s (e :: L) none t) (hroot : Rooted sb s)
    (hfuel : path.length ≤ fuel)
    (hm : (Fs.namexLoop parent fuel e path name).Meets Act.exec (Ample sb) t) :
    Looks sb s L parent (t.inode e).inum (components path)
    (Fs.namexLoop parent fuel e path name) t := by
  induction fuel generalizing e t path name with
  | zero =>
      obtain rfl := List.length_eq_zero_iff.1 (Nat.le_zero.1 hfuel)
      exact c.namexEnd hroot hm
  | succ fuel ih =>
      rw [Fs.namexLoop] at hm ⊢
      cases hskip : skipelem path with
      | none =>
          rw [hskip] at hm
          rw [components_of_skipelem_none hskip]
          exact c.namexEnd hroot hm
      | some r =>
          obtain ⟨rest, elem⟩ := r
          obtain ⟨hcomp, hlt, hrest⟩ := components_of_skipelem hskip
          rw [hskip] at hm
          dsimp only at hm ⊢
          rw [hcomp]
          by_cases h0 : (s.node (t.inode e).inum).type = 0
          · exact .stops (fun h => h.1 h0) (c.ilock_stops h0 hm.left).bind
          obtain ⟨t₁, hy₁, c₁, l₁, hbusy₁⟩ := c.ilock h0 hm.left
          have hm₁ := (hm.right hy₁).right Yields.getInode
          have hnode : (s.node (t.inode e).inum).type = (t₁.inode e).type := by
            rw [← c₁.node, c₁.inv.node_of_live l₁]
          refine .seq hy₁ (.seq Yields.getInode ?_)
          by_cases ht : (t₁.inode e).type = T_DIR
          swap
          · rw [if_pos ht] at hm₁ ⊢
            obtain ⟨t₂, hy₂, c₂, -⟩ := c₁.iunlockput hroot hbusy₁ hm₁.left
            exact .seq hy₂ (.returns (r := none) (passable_of_not_dir h0 (hnode ▸ ht)) .pure c₂
              (answers_of_not_dir (hnode ▸ ht)))
          rw [if_neg (not_not.2 ht)] at hm₁ ⊢
          by_cases hlast : parent = true ∧ rest = []
          · obtain ⟨rfl, rfl⟩ := hlast
            obtain ⟨t₂, hy₂, c₂, hinum⟩ := c₁.iunlock hbusy₁
            rw [if_pos ⟨rfl, rfl⟩]
            refine .seq hy₂ (.returns (r := some (e, elem))
              (passable_of_last (hnode.trans ht)) .pure c₂ ?_)
            change some ((t₂.inode e).inum, elem) = s.walkParent (t.inode e).inum [elem]
            rw [walkParent_singleton (hnode.trans ht), hinum, l₁.inum]
          rw [if_neg hlast] at hm₁ ⊢
          have hne : parent = true → components rest ≠ [] := fun hp =>
            components_ne_nil hrest fun hnil => hlast ⟨hp, hnil⟩
          have hne' : ¬ (parent = true ∧ components rest = []) := fun h => hne h.1 h.2
          rcases c₁.dirlookup l₁ ht hm₁.left with ⟨hb, hwhole, hy₂⟩ | ⟨hb, hpart, hstop⟩ |
            ⟨y, e', off, t₂, hb, hy₂, c₂, hinum₂, hbusy₂⟩
          · obtain ⟨t₃, hy₃, c₃, -⟩ := c₁.iunlockput hroot hbusy₁ (hm₁.right hy₂).left
            refine .seq hy₂ (.seq hy₃ (.returns (r := none) ?_ .pure c₃ ?_))
            · exact (passable_of_absent (hnode.trans ht) hne' hb).2 hwhole
            · exact answers_of_dir (hnode.trans ht) hne (fun _ => rfl) fun y hy =>
                absurd (hb.symm.trans hy) (by simp)
          · exact .stops (fun h => hpart ((passable_of_absent (hnode.trans ht) hne' hb).1 h))
              hstop.bind
          · have hm₂ := hm₁.right hy₂
            obtain ⟨t₃, hy₃, c₃, hinum₃⟩ :=
              (c₂.perm (.swap e e' L)).iunlockput hroot (hbusy₂.trans hbusy₁) hm₂.left
            have hlooks := ih c₃ (by omega) (hm₂.right hy₃)
            rw [hinum₃, hinum₂] at hlooks
            refine .seq hy₂ (.seq hy₃ ?_)
            cases hlooks with
            | returns hp hy₄ c₄ ha =>
                refine .returns ((passable_of_bound (hnode.trans ht) hne' hb).2 hp) hy₄ c₄ ?_
                refine answers_of_dir (hnode.trans ht) hne
                  (fun hno => absurd (hno.symm.trans hb) (by simp)) fun z hz => ?_
                obtain rfl : y = z := Option.some_inj.1 (hb.symm.trans hz)
                exact ha
            | stops hp h =>
                exact .stops (fun h' => hp ((passable_of_bound (hnode.trans ht) hne' hb).1 h')) h

end Walking

/-- The inode in which a lookup starts: the root, or the current directory of the process. -/
def FsState.startOf (s : FsState) (p : ProcId) (path : Name) : Option ℕ :=
  if path.head? = some slash then some ROOTINO else (s.proc p).cwd.map fun e => (s.inode e).inum

/-- `namex` looks up the components of the path. -/
lemma Walking.namex {p : ProcId} {parent : Bool} (c : Walking sb s L none s) (hroot : Rooted sb s)
    (hx : s.startOf p path = some x) (hm : (Fs.namex p path parent).Meets Act.exec (Ample sb) s) :
    Looks sb s L parent x (components path) (Fs.namex p path parent) s := by
  rw [Fs.namex] at hm ⊢
  rw [startOf] at hx
  split at hx
  · rename_i hslash
    obtain rfl := Option.some_inj.1 hx
    rw [if_pos hslash] at hm ⊢
    have hget := hm.left
    obtain ⟨e, t₁, hexec, g⟩ :=
      iget_referenced (show Ample sb (.iget ROOTDEV ROOTINO) s from hget.1)
    have hy₁ : Yields (Fs.iget ROOTDEV ROOTINO) s e t₁ := .act hexec
    obtain ⟨ino, cons⟩ := c.inv.content
    have hinv := hy₁.post (Q := fun e t => Inv sb (e :: L) t)
      (Safe.iget c.inv cons.mounted.sound.root fun e t i _ _ _ _ => i) hget
    have hlooks := (c.referenced hinv g).namexLoop hroot le_rfl (hm.right hy₁)
    rw [g.inum] at hlooks
    exact .seq hy₁ hlooks
  · rename_i hslash
    rw [if_neg hslash] at hm ⊢
    obtain ⟨e, hcwd, rfl⟩ := Option.map_eq_some_iff.1 hx
    have hy₀ : Yields (Fs.getCwd p) s (s.proc p).cwd s := .act rfl
    have hm₀ := hm.right hy₀
    rw [hcwd] at hm₀ hy₀
    have hy₁ : Yields (Fs.idup e) s ()
      (s.setInode e { s.inode e with ref := (s.inode e).ref + 1 }) := .act rfl
    have hinv := hy₁.post (Q := fun _ t => Inv sb (e :: L) t)
      (Safe.idup c.inv (.inr (.inr ⟨p, hcwd⟩)) fun t i _ => i) hm₀.left
    have c₁ : Walking sb s (e :: L) none _ :=
      c.setInode hinv (fun _ => rfl) (fun h => c.locked e h) fun _ _ h => h
    have hlooks := c₁.namexLoop hroot le_rfl (hm₀.right hy₁)
    rw [setInode_inode_self] at hlooks
    exact .seq hy₀ (.seq hy₁ hlooks)

/-- The names that `skipelem` gives are the components of the path.  Between two system calls, and
as long as the kernel has what is asked of it, `namei` returns the inode that one finds by looking
up the components one after another, and `nameiparent` the directory and the name of the last step,
iff no inode in which a name is looked up is free and no directory in which a name is missing ends
within an entry; the two fail exactly if there is no such inode or directory, and they leave the
disk as it is. -/
theorem path_lookup {p : ProcId} (i : Inv sb L s) (hroot : Rooted sb s) (hs : s.held = [])
    (hfree : ∀ e, (s.inode e).busy = false) (hdisk : sb.size ≤ s.disksize) :
    skipelems path.length path = components path ∧
    (∀ x, s.startOf p path = some x → (Fs.namei p path).Meets Act.exec (Ample sb) s →
      ((∃ r s', (Fs.namei p path).run Act.exec s = .ok r s' ∧ s'.home = s.home ∧
        r.map (fun e => (s'.inode e).inum) = s.walk x (components path)) ↔
        s.Passable false x (components path))) ∧
    (∀ x, s.startOf p path = some x → (Fs.nameiparent p path).Meets Act.exec (Ample sb) s →
      ((∃ r s', (Fs.nameiparent p path).run Act.exec s = .ok r s' ∧ s'.home = s.home ∧
        r.map (fun d => ((s'.inode d.1).inum, d.2)) = s.walkParent x (components path)) ↔
        s.Passable true x (components path))) ∧
    (∀ x y, components path ≠ [] → (s.walk x (components path) = some y ↔
      ∃ d name, s.walkParent x (components path) = some (d, name) ∧ (s.node d).type = T_DIR ∧
        s.binding d name = some y)) ∧
    ∀ x, components path = [] →
      s.walkParent x (components path) = none ∧ s.walk x (components path) = some x := by
  have c : Walking sb s L none s :=
    ⟨i, rfl, hs, hdisk, rfl, rfl, fun _ _ => rfl, fun e he => absurd he (by rw [hfree e]; decide)⟩
  refine ⟨skipelems_eq_components le_rfl, fun x hx hm => ?_, fun x hx hm => ?_,
    fun x y hne => walk_eq_some_iff hne,
    fun x hnil => by rw [hnil]; exact ⟨rfl, rfl⟩⟩
  · cases c.namex hroot hx hm.left with
    | @returns r s' hp hy c' ha =>
        refine ⟨fun _ => hp, fun _ => ⟨r.map Prod.fst, s', hy.seq .pure, c'.home, ?_⟩⟩
        rw [Option.map_map]
        exact ha
    | stops hp h =>
        obtain ⟨_, _, hstop⟩ : Stops (Fs.namei p path) s := h.bind
        refine ⟨?_, fun h' => absurd h' hp⟩
        rintro ⟨r, s', hrun, -⟩
        rw [hrun] at hstop
        exact absurd hstop (by simp)
  · cases c.namex hroot hx hm with
    | @returns r s' hp hy c' ha => exact ⟨fun _ => hp, fun _ => ⟨r, s', hy, c'.home, ha⟩⟩
    | stops hp h =>
        obtain ⟨_, _, hstop⟩ := h
        refine ⟨?_, fun h' => absurd h' hp⟩
        rintro ⟨r, s', hrun, -⟩
        rw [Fs.nameiparent, hstop] at hrun
        exact absurd hrun (by simp)

/-- After a file has been created in the root, its path has two slashes. -/
theorem path_lookup_small : ∃ es s, Fs.RoomyRun (Fs.smallSb 20) (Fs.small 20) es s ∧
    (∃ r s', (Fs.namei Fs.initproc [47, 47, 97]).run Act.exec s = .ok r s' ∧ s'.home = s.home ∧
      r.map (fun e => (s'.inode e).inum) = some 2) ∧
    ∃ r s', (Fs.nameiparent Fs.initproc [47, 47, 97]).run Act.exec s = .ok r s' ∧ s'.home = s.home ∧
      r.map (fun d => ((s'.inode d.1).inum, d.2)) = some (ROOTINO, [97]) := by
  obtain ⟨es, s, h, hheld, hfree, hdisk, hlinks, hw, hwp, hp, hpp, hm, hmp⟩ : ∃ es s,
      Fs.RoomyRun (Fs.smallSb 20) (Fs.small 20) es s ∧ s.held = [] ∧
      (∀ e, (s.inode e).busy = false) ∧
      (Fs.smallSb 20).size ≤ s.disksize ∧
      (∀ x < (Fs.smallSb 20).ninodes, (s.node x).type ≠ 0 → (s.node x).nlink ≠ 0) ∧
      s.walk ROOTINO (components [47, 47, 97]) = some 2 ∧
      s.walkParent ROOTINO (components [47, 47, 97]) = some (ROOTINO, [97]) ∧
      s.Passable false ROOTINO (components [47, 47, 97]) ∧ s.Passable true ROOTINO
      (components [47, 47, 97]) ∧
      (Fs.namei Fs.initproc [47, 47, 97]).Meets Act.exec (Ample (Fs.smallSb 20)) s ∧
      (Fs.nameiparent Fs.initproc [47, 47, 97]).Meets Act.exec (Ample (Fs.smallSb 20)) s :=
    Run.exists_of_exec _ [Fs.Event.call Fs.initproc (.open (some [97]) 0x202)] (by decide +kernel)
  have hinv := (Roomy.of_run (small_wellFormed (by decide)) h).sound.inv
  have hroot : Rooted (Fs.smallSb 20) s := fun x hx ht => .inl (hlinks x hx ht)
  obtain ⟨-, hnamei, hparent, -, -⟩ :=
    @path_lookup _ _ [47, 47, 97] _ Fs.initproc hinv hroot hheld hfree hdisk
  exact ⟨es, s, h, hw ▸ (hnamei ROOTINO rfl hm).2 hp, hwp ▸ (hparent ROOTINO rfl hmp).2 hpp⟩

/-- A process makes the directories `a` and `a/b`, enters `a/b` and removes both.  In its current
directory, `..` is a free inode, and a lookup of `../x` panics. -/
theorem namei_removed_directory : ∃ es s, Fs.RoomyRun (Fs.smallSb 20) (Fs.small 20) es s ∧
    s.startOf Fs.initproc [46, 46, 47, 120] = some 3 ∧
    s.walk 3 (components [46, 46, 47, 120]) = none ∧
    ∃ t, (Fs.namei Fs.initproc [46, 46, 47, 120]).run Act.exec s =
      .error (.panic "ilock: no type") t := by
  obtain ⟨es, s, h, hstart, hwalk, hw⟩ : ∃ es s, Fs.RoomyRun (Fs.smallSb 20) (Fs.small 20) es s ∧
      s.startOf Fs.initproc [46, 46, 47, 120] = some 3 ∧
      s.walk 3 (components [46, 46, 47, 120]) = none ∧
      Wp ((Fs.namei Fs.initproc [46, 46, 47, 120]).run Act.exec) (fun _ _ => False)
        (fun r _ => r = .panic "ilock: no type") s :=
    Run.exists_of_exec _ [.call Fs.initproc (.mkdir (some [97])),
      .call Fs.initproc (.mkdir (some [97, 47, 98])),
      .call Fs.initproc (.chdir (some [97, 47, 98])),
      .call Fs.initproc (.unlink (some [47, 97, 47, 98])),
      .call Fs.initproc (.unlink (some [47, 97]))] (by decide +kernel)
  obtain ⟨_, t, hstop, rfl⟩ := hw.stops
  exact ⟨es, s, h, hstart, hwalk, t, hstop⟩

end Xv6
