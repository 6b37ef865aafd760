import Mathlib.Data.Finset.Union
import Mathlib.Data.Finset.Image

/-!
# File trees

A file tree maps each path, a list of names from the root, to a directory, a file or a
symbolic link. Only finitely many paths exist, and whatever exists stands in a directory:
both are fields, so every operation below keeps them.
-/

inductive Node (κ τ : Type) where
  | dir
  | file (content : κ)
  | link (target : τ)
deriving DecidableEq

structure FileTree (ν κ τ : Type) where
  node : List ν → Option (Node κ τ)
  paths : Finset (List ν)
  mem_paths : ∀ p, p ∈ paths ↔ node p ≠ none
  root_dir : node [] = some .dir
  parent_dir : ∀ p c, node (p ++ [c]) ≠ none → node p = some .dir

namespace FileTree

variable {ν κ τ : Type}

theorem ext_node {t u : FileTree ν κ τ} (h : t.node = u.node) : t = u := by
  have hp : t.paths = u.paths := by
    ext p
    rw [t.mem_paths, u.mem_paths, h]
  cases t; cases u
  simp_all

/-! ## Above and below -/

theorem dir_above (t : FileTree ν κ τ) (p q : List ν) (hq : q ≠ []) (h : t.node (p ++ q) ≠ none) :
    t.node p = some .dir := by
  induction q using List.reverseRecOn with
  | nil => exact absurd rfl hq
  | append_singleton q c ih =>
    rw [← List.append_assoc] at h
    have hd := t.parent_dir _ _ h
    by_cases hnil : q = []
    · simpa [hnil] using hd
    · exact ih hnil (by rw [hd]; simp)

theorem dir_of_prefix (t : FileTree ν κ τ) {p q : List ν} (hp : t.node p = some .dir) (hq : q <+: p) :
    t.node q = some .dir := by
  obtain ⟨r, rfl⟩ := hq
  by_cases hr : r = []
  · simpa [hr] using hp
  · exact t.dir_above q r hr (by rw [hp]; simp)

theorem none_below (t : FileTree ν κ τ) {p : List ν} (hp : t.node p ≠ some .dir) {q : List ν} (hq : q ≠ []) :
    t.node (p ++ q) = none := by
  by_contra h
  exact hp (t.dir_above p q hq h)

variable [DecidableEq ν]

/-- The names in a directory. -/
def entries (t : FileTree ν κ τ) (p : List ν) : Finset ν :=
  t.paths.biUnion fun q =>
    match q.getLast? with
    | some c => if q = p ++ [c] then {c} else ∅
    | none => ∅

theorem mem_entries (t : FileTree ν κ τ) (p : List ν) (c : ν) :
    c ∈ t.entries p ↔ t.node (p ++ [c]) ≠ none := by
  rw [entries, Finset.mem_biUnion, ← t.mem_paths]
  constructor
  · rintro ⟨q, hq, hc⟩
    cases hl : q.getLast? with
    | none => simp [hl] at hc
    | some d =>
      simp only [hl] at hc
      split at hc
      · rename_i h
        rw [Finset.mem_singleton.mp hc, ← h]
        exact hq
      · simp at hc
  · intro h
    exact ⟨p ++ [c], h, by simp⟩

/-! ## Writing one path -/

/-- `p` can become a file, a link or a new directory: it stands in a directory and is none itself. -/
def CanPut (t : FileTree ν κ τ) (p : List ν) : Prop :=
  p ≠ [] ∧ t.node p.dropLast = some .dir ∧ t.node p ≠ some .dir

instance [DecidableEq κ] [DecidableEq τ] (t : FileTree ν κ τ) (p : List ν) : Decidable (t.CanPut p) :=
  inferInstanceAs (Decidable (_ ∧ _ ∧ _))

def put (t : FileTree ν κ τ) (p : List ν) (n : Node κ τ) (h : t.CanPut p) : FileTree ν κ τ where
  node q := if q = p then some n else t.node q
  paths := insert p t.paths
  mem_paths q := by
    rw [Finset.mem_insert, t.mem_paths]
    by_cases hq : q = p <;> simp [hq]
  root_dir := by rw [if_neg (Ne.symm h.1)]; exact t.root_dir
  parent_dir q c hq := by
    obtain ⟨_, hpar, hdir⟩ := h
    by_cases hp : q ++ [c] = p
    · -- The parent of `p` is the directory that `CanPut` asks for, and not `p` itself.
      have hqp : q ≠ p := by rintro rfl; simp at hp
      rw [if_neg hqp]
      rwa [← hp, List.dropLast_concat] at hpar
    · rw [if_neg hp] at hq
      have hqd := t.parent_dir q c hq
      have hqp : q ≠ p := by rintro rfl; exact hdir hqd
      rwa [if_neg hqp]

@[simp] theorem node_put (t : FileTree ν κ τ) (p : List ν) (n : Node κ τ) (h : t.CanPut p) (q : List ν) :
    (t.put p n h).node q = if q = p then some n else t.node q := rfl

/-! ## Removing one path -/

/-- `p` can go: it is not the root, and nothing is below it. -/
def CanErase (t : FileTree ν κ τ) (p : List ν) : Prop :=
  p ≠ [] ∧ ∀ q ∈ t.paths, p <+: q → q = p

instance (t : FileTree ν κ τ) (p : List ν) : Decidable (t.CanErase p) :=
  inferInstanceAs (Decidable (_ ∧ _))

def erase (t : FileTree ν κ τ) (p : List ν) (h : t.CanErase p) : FileTree ν κ τ where
  node q := if q = p then none else t.node q
  paths := t.paths.erase p
  mem_paths q := by
    rw [Finset.mem_erase, t.mem_paths]
    by_cases hq : q = p <;> simp [hq]
  root_dir := by rw [if_neg (Ne.symm h.1)]; exact t.root_dir
  parent_dir q c hq := by
    by_cases hp : q ++ [c] = p
    · rw [if_pos hp] at hq; exact absurd rfl hq
    · rw [if_neg hp] at hq
      have hqp : q ≠ p := by
        rintro rfl
        exact hp (h.2 _ ((t.mem_paths _).mpr hq) (List.prefix_append q [c]))
      rw [if_neg hqp]
      exact t.parent_dir q c hq

@[simp] theorem node_erase (t : FileTree ν κ τ) (p : List ν) (h : t.CanErase p) (q : List ν) :
    (t.erase p h).node q = if q = p then none else t.node q := rfl

omit [DecidableEq ν] in
theorem canErase_of_not_dir (t : FileTree ν κ τ) {p : List ν} (hp : t.node p ≠ some .dir) : t.CanErase p := by
  refine ⟨by rintro rfl; exact hp t.root_dir, ?_⟩
  rintro q hq ⟨r, rfl⟩
  by_cases hr : r = []
  · simp [hr]
  · exact absurd (t.none_below hp hr) ((t.mem_paths _).mp hq)

/-! ## Moving a whole subtree -/

/-- `src` can become `dst`: `dst` stands in a directory, not below `src`, and has nothing below it. -/
def CanMove (t : FileTree ν κ τ) (src dst : List ν) : Prop :=
  src ≠ [] ∧ dst ≠ [] ∧ t.node dst.dropLast = some .dir ∧ ¬ src <+: dst ∧
    ∀ q ∈ t.paths, dst <+: q → q = dst

instance [DecidableEq κ] [DecidableEq τ] (t : FileTree ν κ τ) (src dst : List ν) :
    Decidable (t.CanMove src dst) :=
  inferInstanceAs (Decidable (_ ∧ _ ∧ _ ∧ _ ∧ _))

/-- Where a path ends up when `src` becomes `dst`. -/
def reroot (src dst q : List ν) : List ν := if src <+: q then dst ++ q.drop src.length else q

def moveNode (t : FileTree ν κ τ) (src dst q : List ν) : Option (Node κ τ) :=
  if dst <+: q then t.node (src ++ q.drop dst.length) else if src <+: q then none else t.node q

theorem mem_move_paths (t : FileTree ν κ τ) {src dst : List ν} (h : t.CanMove src dst) (q : List ν) :
    q ∈ (t.paths.filter (¬ dst <+: ·)).image (reroot src dst) ↔ t.moveNode src dst q ≠ none := by
  obtain ⟨_, _, _, hsd, hempty⟩ := h
  rw [Finset.mem_image, moveNode]
  constructor
  · rintro ⟨p, hp, rfl⟩
    rw [Finset.mem_filter, t.mem_paths] at hp
    unfold reroot
    by_cases hs : src <+: p
    · obtain ⟨r, rfl⟩ := hs
      simpa using hp.1
    · rw [if_neg hs, if_neg hp.2, if_neg hs]
      exact hp.1
  · intro hq
    by_cases hd : dst <+: q
    · rw [if_pos hd] at hq
      obtain ⟨r, rfl⟩ := hd
      refine ⟨src ++ r, ?_, by simp [reroot]⟩
      rw [Finset.mem_filter, t.mem_paths]
      refine ⟨by simpa using hq, ?_⟩
      -- A path under both roots would put `dst` above `src`, where nothing may be below it.
      intro hds
      have hsrc : dst <+: src ∨ src <+: dst :=
        (List.prefix_or_prefix_of_prefix hds (List.prefix_append src r))
      rcases hsrc with hsrc | hsrc
      · have hex : src ++ r ∈ t.paths := (t.mem_paths _).mpr (by simpa using hq)
        have heq := hempty _ hex hds
        exact hsd (heq ▸ List.prefix_append src r)
      · exact hsd hsrc
    · rw [if_neg hd] at hq
      by_cases hs : src <+: q
      · simp [hs] at hq
      · rw [if_neg hs] at hq
        refine ⟨q, ?_, by rw [reroot, if_neg hs]⟩
        rw [Finset.mem_filter, t.mem_paths]
        exact ⟨hq, hd⟩

def move (t : FileTree ν κ τ) (src dst : List ν) (h : t.CanMove src dst) : FileTree ν κ τ where
  node := t.moveNode src dst
  paths := (t.paths.filter (¬ dst <+: ·)).image (reroot src dst)
  mem_paths := t.mem_move_paths h
  root_dir := by
    obtain ⟨hs, hd, _⟩ := h
    simp [moveNode, hs, hd, t.root_dir]
  parent_dir q c hq := by
    obtain ⟨_, _, hpar, hsd, _⟩ := h
    unfold moveNode at hq ⊢
    by_cases hd : dst <+: q ++ [c]
    · rw [if_pos hd] at hq
      rcases List.prefix_concat_iff.mp hd with heq | hpre
      · -- `q` is the directory that `dst` stands in.
        have hq' : q = dst.dropLast := by rw [heq, List.dropLast_concat]
        have hdq : ¬ dst <+: q := by
          intro hp
          have := hp.length_le
          rw [heq] at this
          simp only [List.length_append, List.length_singleton] at this
          omega
        have hsq : ¬ src <+: q := fun hp => hsd (hp.trans (heq ▸ List.prefix_append q [c]))
        rw [if_neg hdq, if_neg hsq, hq']
        exact hpar
      · rw [if_pos hpre]
        obtain ⟨r, rfl⟩ := hpre
        rw [List.append_assoc, List.drop_left, ← List.append_assoc] at hq
        rw [List.drop_left]
        exact t.parent_dir _ c hq
    · rw [if_neg hd] at hq
      have hdq : ¬ dst <+: q := fun hp => hd (hp.trans (List.prefix_append q [c]))
      by_cases hs : src <+: q ++ [c]
      · simp [hs] at hq
      · rw [if_neg hs] at hq
        have hsq : ¬ src <+: q := fun hp => hs (hp.trans (List.prefix_append q [c]))
        rw [if_neg hdq, if_neg hsq]
        exact t.parent_dir q c hq

theorem node_move (t : FileTree ν κ τ) (src dst : List ν) (h : t.CanMove src dst) (q : List ν) :
    (t.move src dst h).node q =
      if dst <+: q then t.node (src ++ q.drop dst.length) else if src <+: q then none else t.node q := rfl

@[simp] theorem node_move_under (t : FileTree ν κ τ) (src dst : List ν) (h : t.CanMove src dst) (r : List ν) :
    (t.move src dst h).node (dst ++ r) = t.node (src ++ r) := by
  rw [node_move, if_pos (List.prefix_append dst r), List.drop_left]

end FileTree
