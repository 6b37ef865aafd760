import NetDisk.Lib.FileTree

/-!
# Path names

A path name is a list of components: `.`, `..` or a name. `walk` follows it through a file tree
from a directory, through the symbolic links on its way; `normalize` only reads it.
-/

inductive Errno where
  | eexist
  | enoent
  | enotdir
  | eisdir
  | enotempty
  | eloop
  | eio
deriving DecidableEq

/-- One component of a path name. -/
inductive Comp (ν : Type) where
  | here
  | up
  | name (n : ν)
deriving DecidableEq

namespace FileTree

variable {ν κ τ : Type}

/-- The path that the components name from `cur`, with no look at the tree. -/
def normalize (cur : List ν) (cs : List (Comp ν)) : List ν :=
  cs.foldl (fun p c => match c with
    | .here => p
    | .up => p.dropLast
    | .name n => p ++ [n]) cur

theorem normalize_names (cur q : List ν) : normalize cur (q.map .name) = cur ++ q := by
  unfold normalize
  induction q generalizing cur with
  | nil => simp
  | cons n q ih => simp [ih]

theorem normalize_name (cur : List ν) (cs : List (Comp ν)) (n : ν) :
    normalize cur (cs ++ [.name n]) = normalize cur cs ++ [n] := by
  unfold normalize
  rw [List.foldl_append]
  rfl

/-- Walks the components in order; `follow` takes over at a link, with what is left. -/
def walkWith (t : FileTree ν κ τ) (follow : List ν → τ → List (Comp ν) → Except Errno (List ν)) :
    List ν → List (Comp ν) → Except Errno (List ν)
  | cur, [] => .ok cur
  | cur, .here :: cs => t.walkWith follow cur cs
  | cur, .up :: cs => t.walkWith follow cur.dropLast cs
  | cur, .name n :: cs =>
    match t.node (cur ++ [n]) with
    | some .dir => t.walkWith follow (cur ++ [n]) cs
    | some (.file _) => if cs = [] then .ok (cur ++ [n]) else .error .enotdir
    | some (.link target) => follow cur target cs
    -- Only the last component may be missing.
    | none => if cs = [] then .ok (cur ++ [n]) else .error .enoent

/-- How a link's target reads: whether it starts at the root, and its components. -/
abbrev ReadLink (ν τ : Type) := τ → Bool × List (Comp ν)

/-- At most `links` links are followed. -/
def walk (t : FileTree ν κ τ) (read : ReadLink ν τ) : Nat → List ν → List (Comp ν) →
    Except Errno (List ν)
  | 0 => t.walkWith fun _ _ _ => .error .eloop
  | links + 1 => t.walkWith fun cur target cs =>
    t.walk read links (if (read target).1 then [] else cur) ((read target).2 ++ cs)

/-- The directory that the last component stands in. -/
def parent (t : FileTree ν κ τ) (read : ReadLink ν τ) (links : Nat) (cur : List ν) (cs : List (Comp ν)) :
    Except Errno (List ν) :=
  match t.walk read links cur cs.dropLast with
  | .error e => .error e
  | .ok d =>
    match t.node d with
    | some .dir => .ok d
    | some _ => .error .enotdir
    | none => .error .enoent

/-- The path for a new entry: the last component is a name in an existing directory. Anything else names a directory
that is there. -/
def locate (t : FileTree ν κ τ) (read : ReadLink ν τ) (links : Nat) (cur : List ν) (cs : List (Comp ν)) :
    Except Errno (List ν) :=
  match t.parent read links cur cs with
  | .error e => .error e
  | .ok d =>
    match cs.getLast? with
    | some (.name n) => .ok (d ++ [n])
    | _ => .error .eexist

theorem parent_of_locate {t : FileTree ν κ τ} {read : ReadLink ν τ} {links : Nat} {cur p : List ν} {cs : List (Comp ν)}
    (h : t.locate read links cur cs = .ok p) : ∃ d n, p = d ++ [n] ∧ t.node d = some .dir := by
  unfold locate at h
  cases hparent : t.parent read links cur cs with
  | error e => simp [hparent] at h
  | ok d =>
    have hd : t.node d = some .dir := by
      unfold parent at hparent
      split at hparent
      · cases hparent
      · split at hparent
        · rename_i hdir
          rwa [← Except.ok.inj hparent]
        · cases hparent
        · cases hparent
    simp only [hparent] at h
    split at h
    · rename_i n _
      exact ⟨d, n, (Except.ok.inj h).symm, hd⟩
    · cases h

/-! ## Paths with no link on their way -/

section
variable (t : FileTree ν κ τ) (follow : List ν → τ → List (Comp ν) → Except Errno (List ν))

theorem walkWith_through (cur q : List ν) (cs : List (Comp ν)) (hq : t.node (cur ++ q) = some .dir) :
    t.walkWith follow cur (q.map .name ++ cs) = t.walkWith follow (cur ++ q) cs := by
  induction q generalizing cur with
  | nil => simp
  | cons n q ih =>
    have hn : t.node (cur ++ [n]) = some .dir :=
      t.dir_of_prefix hq ⟨q, by simp⟩
    rw [List.map_cons, List.cons_append, walkWith, hn]
    simpa using ih (cur ++ [n]) (by simpa using hq)

theorem walkWith_name (cur : List ν) (n : ν) (hn : ∀ target, t.node (cur ++ [n]) ≠ some (.link target)) :
    t.walkWith follow cur [.name n] = .ok (cur ++ [n]) := by
  rw [walkWith]
  split
  · simp [walkWith]
  · simp
  · rename_i h; exact absurd h (hn _)
  · simp

theorem walkWith_error (cur q : List ν) (hq : ∀ r, r <+: q → ∀ target, t.node (cur ++ r) ≠ some (.link target))
    {e : Errno} (h : t.walkWith follow cur (q.map .name) = .error e) : e ≠ .eexist := by
  induction q generalizing cur with
  | nil => cases h
  | cons n q ih =>
    rw [List.map_cons, walkWith] at h
    split at h
    · refine ih (cur ++ [n]) (fun r hr target => ?_) h
      simpa using hq (n :: r) (by simpa using hr) target
    · split at h <;> cases h
      decide
    · rename_i hlink
      exact absurd hlink (hq [n] ⟨q, by simp⟩ _)
    · split at h <;> cases h
      decide

theorem walkWith_no_links (cur q : List ν) (cs : List (Comp ν)) (hcs : cs = [] ∨ cs = [.here])
    (hq : ∀ r, r <+: q → ∀ target, t.node (cur ++ r) ≠ some (.link target)) :
    t.walkWith follow cur (q.map .name ++ cs) = .ok (cur ++ q) ∨
      ∃ e, t.walkWith follow cur (q.map .name ++ cs) = .error e := by
  induction q generalizing cur with
  | nil => rcases hcs with rfl | rfl <;> simp [walkWith]
  | cons n q ih =>
    have hn := hq [n] ⟨q, by simp⟩
    rw [List.map_cons, List.cons_append, walkWith]
    split
    · have := ih (cur ++ [n]) (by
        intro r hr target
        simpa using hq (n :: r) (by simpa using hr) target)
      simpa using this
    · by_cases hnil : q = [] <;> by_cases hc : cs = [] <;> simp [hnil, hc]
    · rename_i h; exact absurd h (hn _)
    · by_cases hnil : q = [] <;> by_cases hc : cs = [] <;> simp [hnil, hc]

end

section
variable (t : FileTree ν κ τ) (read : ReadLink ν τ) (links : Nat)

theorem walk_eq : ∃ follow, t.walk read links = t.walkWith follow := by
  cases links with
  | zero => exact ⟨_, rfl⟩
  | succ n => exact ⟨_, rfl⟩

theorem walk_dir (p : List ν) (cs : List (Comp ν)) (hcs : cs = [] ∨ cs = [.here]) (hp : t.node p = some .dir) :
    t.walk read links [] (p.map .name ++ cs) = .ok p := by
  obtain ⟨follow, hw⟩ := t.walk_eq read links
  rw [hw, walkWith_through _ _ _ _ _ (by simpa using hp)]
  rcases hcs with rfl | rfl <;> simp [walkWith]

theorem walk_leaf (p : List ν) (n : ν) (hp : t.node p = some .dir)
    (hn : ∀ target, t.node (p ++ [n]) ≠ some (.link target)) :
    t.walk read links [] ((p ++ [n]).map .name) = .ok (p ++ [n]) := by
  obtain ⟨follow, hw⟩ := t.walk_eq read links
  rw [hw, List.map_append, walkWith_through _ _ _ _ _ (by simpa using hp)]
  simpa using t.walkWith_name follow p n hn

theorem walk_no_links (q : List ν) (cs : List (Comp ν)) (hcs : cs = [] ∨ cs = [.here])
    (hq : ∀ r, r <+: q → ∀ target, t.node r ≠ some (.link target)) :
    t.walk read links [] (q.map .name ++ cs) = .ok q ∨
      ∃ e, t.walk read links [] (q.map .name ++ cs) = .error e := by
  obtain ⟨follow, hw⟩ := t.walk_eq read links
  rw [hw]
  simpa using t.walkWith_no_links follow [] q cs hcs (by simpa using hq)

theorem locate_dir (p : List ν) (n : ν) (hp : t.node p = some .dir) :
    t.locate read links [] ((p ++ [n]).map .name) = .ok (p ++ [n]) := by
  have hw := t.walk_dir read links p [] (Or.inl rfl) hp
  rw [List.append_nil] at hw
  simp only [locate, parent, List.map_append, List.map_cons, List.map_nil, List.getLast?_concat,
    List.dropLast_concat, hw, hp]

theorem locate_missing (p : List ν) (m n : ν) (hp : t.node p = some .dir) (hm : t.node (p ++ [m]) = none) :
    t.locate read links [] ((p ++ [m] ++ [n]).map .name) = .error .enoent := by
  have hw := t.walk_leaf read links p m hp (by simp [hm])
  rw [locate, parent, List.map_append]
  simp only [List.map_cons, List.map_nil, List.getLast?_concat, List.dropLast_concat]
  rw [hw]
  simp only [hm]

theorem locate_no_links (q : List ν) (n : ν)
    (hq : ∀ r, r <+: q → ∀ target, t.node r ≠ some (.link target)) :
    t.locate read links [] ((q ++ [n]).map .name) = .ok (q ++ [n]) ∨
      ∃ e, t.locate read links [] ((q ++ [n]).map .name) = .error e := by
  have hw := t.walk_no_links read links q [] (Or.inl rfl) hq
  rw [List.append_nil] at hw
  rw [locate, parent, List.map_append]
  simp only [List.map_cons, List.map_nil, List.getLast?_concat, List.dropLast_concat]
  rcases hw with h | ⟨e, h⟩
  · rw [h]
    cases hnode : t.node q with
    | none => exact Or.inr ⟨.enoent, by simp only [hnode]⟩
    | some m => cases m <;> simp [hnode]
  · rw [h]
    simp

theorem locate_off (q : List ν) (n : ν) (hq : ∀ r, r <+: q → ∀ target, t.node r ≠ some (.link target))
    (hd : t.node q ≠ some .dir) :
    ∃ e, t.locate read links [] ((q ++ [n]).map .name) = .error e ∧ e ≠ .eexist := by
  rw [locate, parent, List.map_append]
  simp only [List.map_cons, List.map_nil, List.getLast?_concat, List.dropLast_concat]
  obtain ⟨follow, hw⟩ := t.walk_eq read links
  have hwalk := t.walk_no_links read links q [] (Or.inl rfl) hq
  rw [List.append_nil] at hwalk
  rcases hwalk with h | ⟨e, h⟩
  · rw [h]
    cases hnode : t.node q with
    | none => exact ⟨.enoent, by simp only [hnode], by decide⟩
    | some m =>
      cases m with
      | dir => exact absurd hnode hd
      | file c => exact ⟨.enotdir, by simp only [hnode], by decide⟩
      | link target => exact ⟨.enotdir, by simp only [hnode], by decide⟩
  · rw [h]
    rw [hw] at h
    exact ⟨e, rfl, t.walkWith_error follow [] q (by simpa using hq) h⟩

end

/-! ## Trees without links -/

section
variable {t : FileTree ν κ τ} (hl : ∀ q target, t.node q ≠ some (.link target))
include hl

theorem walkWith_normalize {follow : List ν → τ → List (Comp ν) → Except Errno (List ν)} {cur p : List ν}
    {cs : List (Comp ν)} (h : t.walkWith follow cur cs = .ok p) : p = normalize cur cs := by
  induction cs generalizing cur with
  | nil => exact (Except.ok.inj h).symm
  | cons c cs ih =>
    cases c with
    | here => exact ih h
    | up => exact ih h
    | name n =>
      rw [walkWith] at h
      split at h
      · exact ih h
      · split at h
        · rename_i hcs
          rw [hcs, ← Except.ok.inj h]
          rfl
        · cases h
      · rename_i hlink
        exact absurd hlink (hl _ _)
      · split at h
        · rename_i hcs
          rw [hcs, ← Except.ok.inj h]
          rfl
        · cases h

theorem walkWith_ne_eexist {follow : List ν → τ → List (Comp ν) → Except Errno (List ν)} (cur : List ν)
    (cs : List (Comp ν)) : t.walkWith follow cur cs ≠ .error .eexist := by
  induction cs generalizing cur with
  | nil => exact fun h => nomatch h
  | cons c cs ih =>
    cases c with
    | here => exact ih cur
    | up => exact ih cur.dropLast
    | name n =>
      rw [walkWith]
      split
      · exact ih (cur ++ [n])
      · split <;> exact fun h => nomatch h
      · rename_i hlink
        exact absurd hlink (hl _ _)
      · split <;> exact fun h => nomatch h

variable {read : ReadLink ν τ} {links : Nat} {cur p : List ν} {cs : List (Comp ν)}

theorem parent_normalize (h : t.parent read links cur cs = .ok p) :
    p = normalize cur cs.dropLast ∧ t.node p = some .dir := by
  obtain ⟨follow, hw⟩ := t.walk_eq read links
  unfold parent at h
  rw [hw] at h
  split at h
  · cases h
  · rename_i d hd
    split at h
    · rename_i hdir
      rw [← Except.ok.inj h]
      exact ⟨walkWith_normalize hl hd, hdir⟩
    · cases h
    · cases h

theorem parent_ne_eexist : t.parent read links cur cs ≠ .error .eexist := by
  obtain ⟨follow, hw⟩ := t.walk_eq read links
  unfold parent
  rw [hw]
  split
  · rename_i e he
    exact fun h => walkWith_ne_eexist hl cur cs.dropLast (he.trans (congrArg _ (Except.error.inj h)))
  · split <;> exact fun h => nomatch h

theorem locate_normalize (h : t.locate read links cur cs = .ok p) : p = normalize cur cs := by
  unfold locate at h
  split at h
  · cases h
  · rename_i d hd
    obtain ⟨rfl, _⟩ := parent_normalize hl hd
    split at h
    · rename_i n hlast
      rw [← Except.ok.inj h]
      conv_rhs => rw [← List.dropLast_append_getLast? _ hlast]
      exact (normalize_name cur cs.dropLast n).symm
    · cases h

theorem locate_eexist (h : t.locate read links cur cs = .error .eexist) : t.node (normalize cur cs) = some .dir := by
  unfold locate at h
  split at h
  · rename_i e he
    exact absurd (he.trans (congrArg _ (Except.error.inj h))) (parent_ne_eexist hl)
  · rename_i d hd
    obtain ⟨rfl, hdir⟩ := parent_normalize hl hd
    split at h
    · cases h
    · rename_i hlast
      induction cs using List.reverseRecOn with
      | nil => exact hdir
      | append_singleton cs c _ =>
        rw [List.dropLast_concat] at hdir
        rw [List.getLast?_concat] at hlast
        unfold normalize at hdir ⊢
        rw [List.foldl_append]
        cases c with
        | here => exact hdir
        | up => exact t.dir_of_prefix hdir (List.dropLast_prefix _)
        | name n => exact absurd rfl (hlast n)

end

end FileTree
