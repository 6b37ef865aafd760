import NetDisk.Parallel.Calls

/-!
# Checking, listing and moving

A call checks its part and lists the directory. The first one that finds all parts moves them, and it
alone counts the reference.
-/

namespace NetDisk.Parallel

open Machine UploadRpc FileSys Mmysql Prog

section
variable {fl : Flags} {u s : Name} {n : Nat} {request : Fin n → NetDiskRequest} (env : Env)
  (hp : Parts u s request) {i : Fin n} {k : Nat} {qs : List Path} {t : Calls n}

/-! ## The check -/

theorem md5Sum_sat {qs' : List Path} (hsub : qs' ⊆ qs) (hkept : ∀ q ∈ qs', ¬ [u, TMP, s] <+: q)
    (ht : Holds fl u s i qs (request i).body t) :
    (calls hp fl env).Sat i (fun curMd5 t => curMd5 = some (request i).partSign ∧ Has fl u s i 2 qs' t)
      (md5Sum (filePath fl (request i))) t := by
  unfold md5Sum shellOut
  refine Proto.Sat.once ?_ (holds_stable env hp _) ht (fun _ => Proto.Stable.const.and (has_stable env hp)) ?_
  · intro res
    cases res with
    | none => exact ⟨_, rfl⟩
    | some res => exact ⟨_, rfl⟩
  · rintro t hinv _ hok ⟨hhas, hpart⟩
    rw [filePath_eq hp] at hok ⊢
    have hpro : (calls hp fl env).promise t i (sumOp fl u s i) := Or.inl ⟨rfl, hpart⟩
    refine ⟨hpro, ?_, has_next env hp hinv hok hpro rfl hhas hsub (Or.inr hkept)⟩
    have hnode := node_part_some hpart
    have hdir := t.state.fs.parent_dir _ _ (by rw [hnode]; simp)
    have hrun := (md5Sum_spec env i t.state.db (p := signDir fl u s)
      (plain_signDir fl hp.usr_plain hp.sign_plain) (plain_toString i) hdir hnode t.state rfl rfl).1
    rw [hp.digest_eq]
    exact hrun

/-! ## The listing -/

theorem lsDir_card (env : Env) (tid : Nat) {w : World} (hu : Plain u) (hsg : Plain s) (hs : Shape fl w.fs)
    (htmp : w.fs.node (fl.usrRoot ++ [u, TMP]) = some .dir) :
    ((lsDir (dirText (fl.usrRoot ++ [u, TMP]) ++ s)).run (exec env tid) w).1.2.card =
      ((Disk.of fl w.fs).arrived u s).ncard := by
  have happ : fl.usrRoot ++ [u, TMP] ++ [s] = fl.usrRoot ++ [u, TMP, s] := by simp
  cases hnode : w.fs.node (fl.usrRoot ++ [u, TMP, s]) with
  | some node =>
    obtain rfl : node = .dir := (hs.usr_entry _ _ hnode).2 rfl
    have hrun := (lsDir_spec env tid w.db (plain_tmp fl hu) hsg htmp (by rw [happ]; exact hnode) w rfl rfl).1
    rw [hrun, Disk.ncard_arrived hs, happ, filter_dots]
    exact congrArg Finset.card (listed_entries hs u s)
  | none =>
    have hnone : (Disk.of fl w.fs).arrived u s = ∅ := by
      ext m
      have hbelow := w.fs.none_below (p := fl.usrRoot ++ [u, TMP, s]) (by simp [hnode])
        (q := [toString m]) (by simp)
      rw [List.append_assoc] at hbelow
      simp only [Disk.arrived, Disk.of, fileAt]
      simp_all
    have hdir : isDir env w.fs (dirText (fl.usrRoot ++ [u, TMP]) ++ s) = none := by
      rw [isDir_name (plain_tmp fl hu) hsg htmp (by simp [hnode]), if_neg (by simp [hnode])]
    rw [hnone, Set.ncard_empty]
    simp [lsDir, sys, run_call, exec, readdir, cStr_name (plain_tmp fl hu) hsg, hdir]

theorem ncard_complete (hinv : (calls hp fl env).inv t) (hnot : ¬ Moved fl u s t.trace) :
    ((Disk.of fl t.state.fs).arrived u s).ncard = n ↔ Complete fl u s t.trace := by
  have hiff := (hinv.before hnot).part_iff
  constructor
  · intro hcard i
    have hrange : ∀ m, (Disk.of fl t.state.fs).part u s m ≠ none → m < n := by
      intro m hm
      obtain ⟨j, rfl, _⟩ := (hiff m).mp hm
      exact j.isLt
    have harrived := (Disk.arrived_of_ncard _ hrange hcard.ge i).mpr i.isLt
    obtain ⟨j, hj, hopened⟩ := (hiff i).mp harrived
    rwa [Fin.ext hj] at hopened
  · intro hcomplete
    apply Disk.ncard_of_arrived
    intro m
    rw [hiff m]
    constructor
    · rintro ⟨j, rfl, _⟩
      exact j.isLt
    · exact fun hm => ⟨⟨m, hm⟩, rfl, hcomplete _⟩

/-- Whether all parts were there, and what follows. -/
def Knows (fl : Flags) (u s : Name) (i : Fin n) (arrived : Prop) (t : Calls n) : Prop :=
  (arrived → Mover fl u s i t) ∧ (¬ arrived → Found fl u s t.trace i → Moved fl u s t.trace)

theorem knows_stable (arrived : Prop) : (calls hp fl env).Stable i (Knows fl u s i arrived) := by
  rintro t j op hj hinv _ hok hpro ⟨hmover, hmoved⟩
  have hpro' : Promise fl u s (fun i => (request i).body) (fun i => (request i).fileName) t j op := hpro
  refine ⟨fun h => mover_other hp.usr_plain hp.sign_plain hj hok hpro' (hmover h), fun h hfound => ?_⟩
  rcases found_after.mp hfound with hfound | ⟨rfl, _⟩
  · exact (moved_after env).mpr (Or.inl (hmoved h hfound))
  · exact absurd rfl hj

theorem knows_listed (hinv : (calls hp fl env).inv t) (hok : (calls hp fl env).ok t i (listOp fl u s))
    (hlisted : ¬ Listed fl u s t.trace i) :
    Knows fl u s i (n = ((Disk.of fl t.state.fs).arrived u s).ncard) ((calls hp fl env).after t i (listOp fl u s)) := by
  by_cases hmoved : Moved fl u s t.trace
  · -- The parts are gone.
    have hnone : (Disk.of fl t.state.fs).arrived u s = ∅ := by
      ext m
      simp [Disk.arrived, (hinv.after hmoved).part_none m]
    rw [hnone, Set.ncard_empty]
    have hpos := i.pos
    exact ⟨fun h => by omega, fun _ _ => (moved_after env).mpr (Or.inl hmoved)⟩
  · rw [eq_comm, ncard_complete env hp hinv hmoved]
    constructor
    · intro hcomplete
      have hnofound := (hok.1 rfl hcomplete).resolve_left hmoved
      refine ⟨found_after.mpr (Or.inr ⟨rfl, rfl, hcomplete⟩), ?_, ?_⟩
      · refine mt (moved_after env).mp (not_or.mpr ⟨hmoved, ?_⟩)
        simp [listOp, mvOp]
      · intro j hj hfound
        rcases found_after.mp hfound with hfound | ⟨rfl, _⟩
        · exact hnofound j hfound
        · exact hj rfl
    · intro hnot hfound
      rcases found_after.mp hfound with hfound | ⟨_, _, hcomplete⟩
      · exact absurd hfound.listed hlisted
      · exact absurd hcomplete hnot

theorem lsDir_sat (hmem : [u, TMP] ∈ qs) (ht : Has fl u s i 2 qs t) :
    (calls hp fl env).Sat i (fun names t => Has fl u s i 3 qs t ∧ Knows fl u s i (n = names.2.card) t)
      (lsDir (usrUploadDir fl (request i) ++ (request i).fileSign)) t := by
  rw [signDir_text, hp.usr_eq, hp.sign_eq]
  unfold lsDir
  refine Proto.Sat.once ?_ (has_stable env hp) ht
    (fun _ => (has_stable env hp).and (knows_stable env hp _)) ?_
  · intro names
    cases names with
    | none => exact ⟨_, rfl⟩
    | some names => exact ⟨_, rfl⟩
  · intro t hinv _ hok ht
    have hcard := lsDir_card env i hp.usr_plain hp.sign_plain hinv.shape (ht.dirs _ hmem)
    unfold lsDir at hcard
    rw [cStr_name (plain_tmp fl hp.usr_plain) hp.sign_plain] at hok hcard ⊢
    have hpro : (calls hp fl env).promise t i (listOp fl u s) := ⟨rfl, ht.marked.opened.mpr (by omega)⟩
    have hkept := ht.kept.resolve_left (by omega)
    refine ⟨hpro, has_next env hp hinv hok hpro rfl ht (List.Subset.refl qs) (Or.inr hkept), ?_⟩
    have hknows := knows_listed env hp hinv hok (mt ht.marked.listed.mp (by omega))
    rw [← hcard] at hknows
    exact hknows

theorem allPartArrived_sat (hmem : [u, TMP] ∈ qs) (hinv : (calls hp fl env).inv t) (ht : Has fl u s i 2 qs t) :
    (calls hp fl env).Sat i (fun arrived t => Has fl u s i 3 qs t ∧ Knows fl u s i (arrived = true) t)
      (allPartArrived (usrUploadDir fl (request i) ++ (request i).fileSign) (request i).shard) t := by
  have hsize : shardSize (request i).shard = n := by
    have hlt := hp.count_lt
    rw [← hp.shard_eq i] at hlt
    exact (shardSize_eq hlt).trans (hp.shard_eq i)
  unfold allPartArrived
  refine Proto.Sat.bind (lsDir_sat env hp hmem ht) hinv ?_
  intro names t _ ht
  rw [hsize]
  refine Proto.Sat.pure ((has_stable env hp).and (knows_stable env hp _)) ht fun t _ ht => ⟨ht.1, ?_⟩
  simpa using ht.2

/-! ## The move -/

/-- The call has moved the parts, and the file has as many references as `x` says. -/
def Moves (fl : Flags) (u s : Name) (i : Fin n) (qs : List Path) (x : Option Nat) (t : Calls n) : Prop :=
  Has fl u s i 4 qs t ∧ t.state.db.refs s = x

theorem moves_stable (x : Option Nat) : (calls hp fl env).Stable i (Moves fl u s i qs x) := by
  rintro t j op hj hinv _ hok hpro ⟨hhas, hrefs⟩
  refine ⟨has_other env hp hinv hok hpro hj hhas, ?_⟩
  rw [refs_other env hp hinv hpro hj (hhas.marked.moved.mpr (by omega))]
  exact hrefs

theorem mv_sat (ht : Has fl u s i 3 qs t) (hmover : Mover fl u s i t) :
    (calls hp fl env).Sat i (fun shellRes t => shellRes = some [] ∧ Moves fl u s i qs none t)
      (shellOut (mvCmd fl (request i))) t := by
  rw [mvCmd_text, hp.usr_eq, hp.sign_eq]
  unfold shellOut
  have hstable : (calls hp fl env).Stable i (Knows fl u s i True) := knows_stable env hp True
  refine Proto.Sat.lift ((has_stable env hp).and hstable) ⟨ht, fun _ => hmover, fun h => absurd trivial h⟩
    (fun _ => Proto.Stable.const.and (moves_stable env hp none)) ?_
  rintro t hinv _ hok ⟨ht, hknows⟩
  rw [(mvText_words fl hp.usr_plain hp.sign_plain).1] at hok ⊢
  have hmover := hknows.1 trivial
  have hsum := ht.marked.summed.mpr (by omega)
  obtain ⟨hdir, hnone⟩ := hinv.movable hmover.not_moved hsum
  have hpro : (calls hp fl env).promise t i (mvOp fl u s) := Or.inr ⟨rfl, hmover.found, hmover.not_moved⟩
  have hexec : exec env i (mvOp fl u s) t.state = _ := exec_mv fl hp.usr_plain hp.sign_plain hinv.shape.files_root hdir hnone
  have hkept := ht.kept.resolve_left (by omega)
  refine ⟨hpro, congrArg Prod.fst hexec,
    has_next env hp hinv hok hpro rfl ht (List.Subset.refl qs) (Or.inr hkept), ?_⟩
  have hdb : ((calls hp fl env).after t i (mvOp fl u s)).state.db = t.state.db :=
    congrArg (fun r => r.2.db) hexec
  refine (congrArg (fun db => db.refs s) hdb).trans ?_
  exact (hinv.before hmover.not_moved).refs

end

end NetDisk.Parallel
