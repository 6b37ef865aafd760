import NetDisk.UploadSpec

/-!
# Requests one after another

What `handle` does to the disk and to the references of `SignMap`, and what an invariant of single
requests is worth over a whole run.
-/

namespace NetDisk

open Machine UploadRpc

variable {env : Env} {fl : Flags} {db db' : DB}

/-! ## References -/

namespace DB

/-- The `reference` of a sign, if it has a row. -/
def refs (db : DB) (sign : Bytes) : Option Nat :=
  (db.signMap.find? (·.sign = sign)).map SignRow.reference

theorem refs_eq_none {db : DB} {sign : Bytes} : db.refs sign = none ↔ ∀ row ∈ db.signMap, row.sign ≠ sign := by
  simp [refs]

theorem refs_eq_some {db : DB} {sign : Bytes} {k : Nat} :
    db.refs sign = some k ↔ ∃ row ∈ db.signMap, row.sign = sign ∧ row.reference = k := by
  constructor
  · intro h
    obtain ⟨row, hrow, rfl⟩ := Option.map_eq_some_iff.mp h
    exact ⟨row, List.mem_of_find?_eq_some hrow, by simpa using List.find?_some hrow, rfl⟩
  · rintro ⟨row, hrow, rfl, rfl⟩
    have hsome : (db.signMap.find? (·.sign = row.sign)).isSome := by
      rw [List.find?_isSome]
      exact ⟨row, hrow, by simp⟩
    obtain ⟨row', hrow'⟩ := Option.isSome_iff_exists.mp hsome
    -- Two rows with one sign are one row.
    have hsign : row'.sign = row.sign := by simpa using List.find?_some hrow'
    have heq := List.inj_on_of_nodup_map db.sign_unique (List.mem_of_find?_eq_some hrow') hrow hsign
    rw [refs, hrow', heq]
    rfl

end DB

theorem sql_of_read {cmd : Bytes} {stmt : Stmt} (h : Stmt.read cmd = some stmt) : sql env db cmd = db.exec stmt := by
  simp only [sql, h]

theorem exec_select (env : Env) {sign : Bytes} (hs : SqlText.litSafe sign = true) (tid : Nat) (w : World) : ∃ rows,
    exec env tid (.query (selectSignCmd sign)) w =
      (true, { w with pending := Function.update w.pending tid (some rows) }) ∧
      (rows.head? = none ↔ w.db.refs sign = none) := by
  refine ⟨(w.db.signMap.filter (·.sign = sign)).map SignRow.columns, ?_, ?_⟩
  · have hsql : sql env w.db (selectSignCmd sign) =
        some (w.db, some ((w.db.signMap.filter (·.sign = sign)).map SignRow.columns)) :=
      sql_of_read (Stmt.read_selectSignCmd hs)
    simp only [exec, hsql]
  · rw [List.head?_map, List.head?_filter, DB.refs]
    simp

theorem exec_query (env : Env) (tid : Nat) {w : World} {cmd : Bytes} (h : queryOutcome env w.db cmd = (true, db')) :
    ∃ rows, exec env tid (.query cmd) w =
      (true, { w with db := db', pending := Function.update w.pending tid rows }) := by
  unfold queryOutcome at h
  cases hq : sql env w.db cmd with
  | none => simp [hq] at h
  | some r =>
    obtain ⟨db, rows⟩ := r
    simp only [hq, Prod.mk.injEq, true_and] at h
    exact ⟨rows, by simp only [exec, hq, h]⟩

variable (env) in
theorem insertRow_spec {sign fileName name : Bytes}
    (hread : Stmt.read (insertSignCmd sign fileName) = some (.insertSigns [⟨sign, name, 1⟩]))
    (hnone : db.refs sign = none) :
    ∃ db' : DB, queryOutcome env db (insertSignCmd sign fileName) = (true, db') ∧
      db'.signMap = db.signMap ++ [⟨sign, name, 1⟩] ∧
      ∀ s, db'.refs s = if s = sign then countUp (db.refs s) else db.refs s := by
  have hnodup : ((db.signMap ++ [SignRow.mk sign name 1]).map SignRow.sign).Nodup := by
    rw [List.map_append, List.map_singleton, List.nodup_append]
    refine ⟨db.sign_unique, List.nodup_singleton _, ?_⟩
    intro a ha b hb
    obtain ⟨row, hrow, rfl⟩ := List.mem_map.mp ha
    rw [List.mem_singleton.mp hb]
    exact DB.refs_eq_none.mp hnone row hrow
  refine ⟨{ db with signMap := db.signMap ++ [⟨sign, name, 1⟩], sign_unique := hnodup }, ?_, rfl, ?_⟩
  · rw [queryOutcome, sql_of_read hread, DB.exec, dif_pos hnodup]
  · intro s
    by_cases h : s = sign
    · subst h
      rw [if_pos rfl, hnone]
      exact DB.refs_eq_some.mpr ⟨SignRow.mk s name 1, by simp, rfl, rfl⟩
    · rw [if_neg h, DB.refs, DB.refs, List.find?_append]
      cases List.find? (fun row => decide (row.sign = s)) db.signMap with
      | none => simp [Ne.symm h]
      | some row => rfl

variable (env) in
theorem updateRow_spec {sign : Bytes} (hs : SqlText.litSafe sign = true) (hsome : db.refs sign ≠ none) :
    queryOutcome env db (updateSignCmd sign) = (true, db.countUp sign) ∧
      ∀ s, (db.countUp sign).refs s = if s = sign then countUp (db.refs s) else db.refs s := by
  constructor
  · rw [queryOutcome, sql_of_read (Stmt.read_updateSignCmd hs), DB.exec]
  · intro s
    have hfind : (db.signMap.map (SignRow.countUp sign)).find? (·.sign = s) =
        (db.signMap.find? (·.sign = s)).map (SignRow.countUp sign) := by
      rw [List.find?_map]
      congr 2
      funext row
      simp
    rw [DB.refs, DB.countUp, hfind, DB.refs]
    by_cases h : s = sign
    · subst h
      rw [if_pos rfl]
      obtain ⟨k, hk⟩ := Option.ne_none_iff_exists'.mp hsome
      obtain ⟨row, hrow, hk'⟩ := Option.map_eq_some_iff.mp hk
      have hsign : row.sign = s := by simpa using List.find?_some hrow
      simp [hrow, SignRow.countUp, hsign, countUp]
    · rw [if_neg h]
      cases hrow : db.signMap.find? (·.sign = s) with
      | none => rfl
      | some row =>
        have hsign : row.sign = s := by simpa using List.find?_some hrow
        simp [SignRow.countUp, hsign, h]

variable (env db) in
theorem linkQueries_eq {sign : Bytes} (hs : SqlText.litSafe sign = true) (fileName : Bytes) :
    linkQueries env db sign fileName = if db.refs sign = none then queryOutcome env db (insertSignCmd sign fileName)
      else queryOutcome env db (updateSignCmd sign) := by
  have hselect : sql env db (selectSignCmd sign) =
      some (db, some ((db.signMap.filter (·.sign = sign)).map SignRow.columns)) :=
    sql_of_read (Stmt.read_selectSignCmd hs)
  have hrow : ((db.signMap.filter (·.sign = sign)).map SignRow.columns).head? =
      (db.signMap.find? (·.sign = sign)).map SignRow.columns := by
    rw [List.head?_map, List.head?_filter]
  unfold linkQueries
  rw [hselect]
  dsimp only
  rw [Option.bind_some, hrow]
  cases hfind : db.signMap.find? (·.sign = sign) with
  | none => rw [if_pos (by rw [DB.refs, hfind]; rfl)]; rfl
  | some row => rw [if_neg (by rw [DB.refs, hfind]; simp)]; rfl

theorem linkQueries_counts {sign fileName : Bytes} (hs : SqlText.litSafe sign = true)
    (hrow : Stmt.OneRow sign fileName) :
    (linkQueries env db sign fileName).1 = true ∧
      ∀ s, (linkQueries env db sign fileName).2.refs s =
        if s = sign then countUp (db.refs s) else db.refs s := by
  rw [linkQueries_eq env db hs]
  by_cases hnone : db.refs sign = none
  · obtain ⟨name, hread⟩ := hrow
    obtain ⟨db', hq, -, hrefs⟩ := insertRow_spec env hread hnone
    rw [if_pos hnone, hq]
    exact ⟨rfl, hrefs⟩
  · obtain ⟨hq, hrefs⟩ := updateRow_spec env hs hnone
    rw [if_neg hnone, hq]
    exact ⟨rfl, hrefs⟩

/-! ## Runs -/

namespace Server

/-- The requests are handled by one thread. -/
def handle (env : Env) (fl : Flags) (w : World) (request : NetDiskRequest) : NetDiskResponse × World :=
  (UploadRpc.Do fl request .empty).run (exec env 0) w

def serve (env : Env) (fl : Flags) (w : World) (requests : List NetDiskRequest) : World :=
  requests.foldl (fun w request => (handle env fl w request).2) w

/-- A request whose names stand for themselves. -/
def PlainNames (request : NetDiskRequest) : Prop := Plain request.usr ∧ Plain request.fileSign

/-- A server that is killed and started again: the files and the tables stay, what the process had is gone. -/
def restarted (w : World) : World :=
  { w with fds := fun _ => none, nextFd := 0, pending := fun _ => none, locked := false }

theorem serve_append (w : World) (requests : List NetDiskRequest) (request : NetDiskRequest) :
    serve env fl w (requests ++ [request]) = (handle env fl (serve env fl w requests) request).2 := by
  simp [serve]

/-- The disk that the server's file system stands for. -/
def disk (fl : Flags) (w : World) : Disk := Disk.of fl w.fs

section
variable (env) {w : World} {request : NetDiskRequest} (hs : Shape fl w.fs) (hr : PlainNames request)
include hs hr

theorem handle_spec :
    Shape fl (handle env fl w request).2.fs ∧
    disk fl (handle env fl w request).2 = (disk fl w).upload (Part.of request) ∧
    (handle env fl w request).1.res = some (((disk fl w).outcome (Part.of request)).res
      (linkQueries env w.db request.fileSign request.fileName).1) ∧
    (handle env fl w request).2.db = if ((disk fl w).outcome (Part.of request)).links then
      (linkQueries env w.db request.fileSign request.fileName).2 else w.db := by
  obtain ⟨response, fs', hends, hs', hdisk, hres⟩ := Do_answers env 0 w.db .empty hr.1 hr.2 hs
  obtain ⟨h1, h2, h3⟩ := hends w rfl rfl
  refine ⟨?_, ?_, ?_, ?_⟩
  · rw [handle, h2]
    exact hs'
  · rw [disk, handle, h2]
    exact hdisk
  · rw [handle, h1]
    exact hres
  · rw [handle]
    exact h3

theorem handle_refs (hrow : Stmt.OneRow request.fileSign request.fileName) :
    (handle env fl w request).2.db.refs = (disk fl w).refsAfter (Part.of request) w.db.refs := by
  obtain ⟨_, _, _, hdb⟩ := handle_spec env hs hr
  funext s
  rw [hdb, Disk.refsAfter]
  by_cases hl : ((disk fl w).outcome (Part.of request)).links = true
  · rw [if_pos hl, (linkQueries_counts hr.2.litSafe hrow).2 s]
    simp only [hl, true_and]
    rfl
  · rw [if_neg hl, if_neg fun h => hl h.1]

end

theorem serve_invariant {w : World} {requests : List NetDiskRequest} (I : List NetDiskRequest → World → Prop)
    (h0 : I [] w)
    (hstep : ∀ done request, done ++ [request] <+: requests → I done (serve env fl w done) →
      I (done ++ [request]) (handle env fl (serve env fl w done) request).2) :
    ∀ done, done <+: requests → I done (serve env fl w done) :=
  Prog.foldl_invariant I h0 hstep

variable (env) in
theorem serve_shape {w : World} {requests : List NetDiskRequest} (hs : Shape fl w.fs)
    (hnames : ∀ r ∈ requests, PlainNames r) : ∀ done, done <+: requests → Shape fl (serve env fl w done).fs := by
  refine serve_invariant (fun _ w => Shape fl w.fs) hs ?_
  intro done r hpre hs'
  exact (handle_spec env hs' (hnames r (hpre.subset (by simp)))).1

/-! ## The start -/

/-- The two directories, and one for each user. -/
def startFs (fl : Flags) (users : List Name) : FS where
  node p := if p <+: fl.usrRoot ∨ p <+: fl.filesRoot ∨ p ∈ users.map (fl.usrRoot ++ [·]) then some .dir else none
  paths := (fl.usrRoot.inits ++ fl.filesRoot.inits ++ users.map (fl.usrRoot ++ [·])).toFinset
  mem_paths p := by
    rw [List.mem_toFinset, List.mem_append, List.mem_append, List.mem_inits, List.mem_inits, or_assoc]
    split <;> simp_all
  root_dir := if_pos (Or.inl List.nil_prefix)
  parent_dir p c h := by
    have hc : p ++ [c] <+: fl.usrRoot ∨ p ++ [c] <+: fl.filesRoot ∨ p ++ [c] ∈ users.map (fl.usrRoot ++ [·]) := by
      by_contra hno
      exact h (if_neg hno)
    refine if_pos ?_
    rcases hc with hc | hc | hc
    · exact Or.inl ((List.prefix_append p [c]).trans hc)
    · exact Or.inr (Or.inl ((List.prefix_append p [c]).trans hc))
    · obtain ⟨u, _, hu⟩ := List.mem_map.mp hc
      have := (List.append_inj' hu rfl).1
      exact Or.inl (this ▸ List.prefix_rfl)

/-- Nothing uploaded, and empty tables. -/
def start (fl : Flags) (users : List Name) : World where
  fs := startFs fl users
  fds := fun _ => none
  nextFd := 0
  db := ⟨[], [], List.nodup_nil, List.nodup_nil⟩
  pending := fun _ => none
  locked := false
  sent := []

end Server

/-- Only the two directories and those of the users are there. -/
structure EmptyDirs (fl : Flags) (fs : FS) : Prop where
  usr_root : fs.node fl.usrRoot = some .dir
  files_root : fs.node fl.filesRoot = some .dir
  users : ∀ q n, fs.node (fl.usrRoot ++ q) = some n → n = .dir ∧ q.length ≤ 1
  no_files : ∀ q, fs.node (fl.filesRoot ++ q) ≠ none → q = []

namespace EmptyDirs

theorem start (fl : Flags) (users : List Name) : EmptyDirs fl (Server.start fl users).fs where
  usr_root := if_pos (Or.inl List.prefix_rfl)
  files_root := if_pos (Or.inr (Or.inl List.prefix_rfl))
  users q n h := by
    change (if _ then _ else _) = _ at h
    split at h
    · rename_i hq
      refine ⟨(Option.some.inj h).symm, ?_⟩
      rcases hq with hq | hq | hq
      · have := hq.length_le
        rw [List.length_append] at this
        omega
      · exact absurd (by simpa using hq) (fl.not_usr_prefix_files q [])
      · obtain ⟨u, _, hu⟩ := List.mem_map.mp hq
        rw [← List.append_cancel_left hu]
        rfl
    · simp at h
  no_files q h := by
    have hq : fl.filesRoot ++ q <+: fl.usrRoot ∨ fl.filesRoot ++ q <+: fl.filesRoot ∨
        fl.filesRoot ++ q ∈ users.map (fl.usrRoot ++ [·]) := by
      by_contra hno
      exact h (if_neg hno)
    rcases hq with hq | hq | hq
    · exact absurd (by simpa using hq) (fl.not_files_prefix_usr [] q)
    · have := hq.length_le
      simpa using this
    · obtain ⟨u, _, hu⟩ := List.mem_map.mp hq
      exact absurd hu (fl.usr_ne_files _ _)

theorem start_no_user (fl : Flags) (n : Name) : (Server.start fl []).fs.node (fl.usrRoot ++ [n]) = none := by
  by_contra hne
  obtain ⟨m, hm⟩ := Option.ne_none_iff_exists'.mp hne
  change (if _ then _ else _) = _ at hm
  split at hm
  · rename_i h
    rcases h with h | h | h
    · exact absurd h.length_le (by simp)
    · exact fl.not_usr_prefix_files [n] [] (by simpa using h)
    · exact absurd h List.not_mem_nil
  · cases hm

variable {fs : FS} (h : EmptyDirs fl fs)
include h

theorem usr_none {q : Path} (hq : 2 ≤ q.length) : fs.node (fl.usrRoot ++ q) = none := by
  by_contra hne
  obtain ⟨n, hn⟩ := Option.ne_none_iff_exists'.mp hne
  have := (h.users q n hn).2
  omega

theorem files_none {q : Path} (hq : q ≠ []) : fs.node (fl.filesRoot ++ q) = none := by
  by_contra hne
  exact hq (h.no_files q hne)

theorem shape : Shape fl fs where
  usr_root := h.usr_root
  files_root := h.files_root
  usr_entry q n hq := by
    obtain ⟨hn, hlen⟩ := h.users q n hq
    match q with
    | [] => trivial
    | [_] => exact hn
    | _ :: _ :: _ => simp at hlen
  store_entry q n hq := by
    rw [h.no_files q (by simp [hq])]
    trivial

theorem part_none (u s : Name) (i : Nat) : (Disk.of fl fs).part u s i = none := by
  simp [Disk.of, fileAt, h.usr_none]

theorem stored_false (s : Name) : (Disk.of fl fs).stored s = false := by
  simp [Disk.of, h.files_none]

theorem linked_false (u s : Name) : (Disk.of fl fs).linked u s = false := by
  simp [Disk.of, h.usr_none]

end EmptyDirs

end NetDisk
