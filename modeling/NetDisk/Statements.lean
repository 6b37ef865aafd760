import NetDisk.Code.Control
import NetDisk.Code.UploadRpc
import NetDisk.Machine

/-!
# The statements the server sends

A client's strings go into the texts as they are. A string without a quote, and with a backslash
only in `\%` and `\_`, arrives as it is; with any other the statement is a different one, or none.
-/

namespace NetDisk

theorem Plain.litSafe {n : Name} (h : Plain n) : SqlText.litSafe n = true := by
  have hno : SqlText.quote ∉ n ∧ SqlText.backslash ∉ n :=
    ⟨fun hm => (h.2.2.2 _ hm).2.2.2 (by decide), fun hm => (h.2.2.2 _ hm).2.2.2 (by decide)⟩
  obtain ⟨hq, hb⟩ := hno
  clear h
  induction n using SqlText.litSafe.induct with
  | case1 => rfl
  | case2 c => simp_all [SqlText.litSafe, eq_comm]
  | case3 d ds => simp at hq
  | case4 d ds _ _ => simp at hb
  | case5 c d ds hcq hcb ih =>
    rw [SqlText.litSafe, if_neg hcq, if_neg hcb]
    exact ih (fun hm => hq (List.mem_cons_of_mem _ hm)) fun hm => hb (List.mem_cons_of_mem _ hm)

namespace Stmt

open SqlText RegisterView UploadRpc

/-! ## Up to the first literal -/

theorem scan_selectUsr :
    scan ⟨[], .blank⟩ (ascii "SELECT uid FROM Usr where name = '") = some ⟨selectUsrHead, .str []⟩ := by
  decide

theorem scan_insertUsr :
    scan ⟨[], .blank⟩ (ascii "INSERT INTO Usr (name, passwd) VALUES('") = some ⟨insertUsrHead, .str []⟩ := by
  decide

theorem scan_selectSign :
    scan ⟨[], .blank⟩ (ascii "SELECT * FROM SignMap where sign = '") = some ⟨selectSignHead, .str []⟩ := by
  decide

theorem scan_insertSign :
    scan ⟨[], .blank⟩ (ascii "INSERT INTO SignMap (sign, fileName, reference) VALUES('") =
      some ⟨insertSignHead ++ [sym '('], .str []⟩ := by
  decide

theorem scan_updateSign :
    scan ⟨[], .blank⟩ (ascii "UPDATE SignMap Set reference = reference + 1 where sign = '") =
      some ⟨updateSignHead, .str []⟩ := by
  decide

/-! ## What the tokens mean -/

/-- The tokens of a statement, without the semicolon. -/
def Shown : Stmt → List Token → Prop
  | .selectUsr name, toks => toks = selectUsrHead ++ [.str name]
  | .insertUsr name passwd, toks => toks = insertUsrHead ++ [.str name, sym ',', .str passwd, sym ')']
  | .selectSign sign, toks => toks = selectSignHead ++ [.str sign]
  | .insertSigns rows, toks => ∃ rest, toks = insertSignHead ++ rest ∧ signRows rest = some rows
  | .updateSign sign, toks => toks = updateSignHead ++ [.str sign]

theorem shown_of_parse {toks : List Token} {stmt : Stmt} (h : parse toks = some stmt) : Shown stmt (body toks) := by
  unfold parse at h
  simp only at h
  split_ifs at h with h1 h2 h3 h4 h5
  · obtain ⟨rest, hrest⟩ := h1
    rw [← hrest, List.drop_left] at h
    split at h
    · obtain rfl := Option.some.inj h
      exact hrest.symm
    · cases h
  · obtain ⟨rest, hrest⟩ := h2
    rw [← hrest, List.drop_left] at h
    split at h
    · split_ifs at h with hc
      obtain rfl := Option.some.inj h
      obtain ⟨rfl, rfl⟩ := hc
      exact hrest.symm
    · cases h
  · obtain ⟨rest, hrest⟩ := h3
    rw [← hrest, List.drop_left] at h
    split at h
    · obtain rfl := Option.some.inj h
      exact hrest.symm
    · cases h
  · obtain ⟨rest, hrest⟩ := h4
    rw [← hrest, List.drop_left] at h
    obtain ⟨rows, hrows, rfl⟩ := Option.map_eq_some_iff.mp h
    exact ⟨rest, hrest.symm, hrows⟩
  · obtain ⟨rest, hrest⟩ := h5
    rw [← hrest, List.drop_left] at h
    split at h
    · obtain rfl := Option.some.inj h
      exact hrest.symm
    · cases h

theorem signRows_ne_nil (toks : List Token) : signRows toks ≠ some [] := by
  intro h
  unfold signRows at h
  split at h
  · split_ifs at h
    simp at h
  · split_ifs at h
    rw [Option.map_eq_some_iff] at h
    obtain ⟨_, _, h⟩ := h
    simp at h
  · simp at h

theorem signRows_one {toks : List Token} {r : SignRow} (h : signRows toks = some [r]) :
    toks = [sym '(', .str r.sign, sym ',', .str r.fileName, sym ',', .word (ascii "1"), sym ')'] := by
  unfold signRows at h
  split at h
  · split_ifs at h with hc
    obtain ⟨rfl, rfl, rfl, rfl, rfl⟩ := hc
    simp only [Option.some.injEq, List.cons.injEq, and_true] at h
    rw [← h]
    rfl
  · split_ifs at h with hc
    rw [Option.map_eq_some_iff] at h
    obtain ⟨rows, hrows, heq⟩ := h
    -- A second row would follow.
    rw [List.cons.injEq] at heq
    exact absurd (heq.2 ▸ hrows) (signRows_ne_nil _)
  · simp at h

theorem body_of_insertSign {toks : List Token} {r : SignRow} (h : parse toks = some (.insertSigns [r])) :
    body toks = insertSignHead ++
      [sym '(', .str r.sign, sym ',', .str r.fileName, sym ',', .word (ascii "1"), sym ')'] := by
  obtain ⟨rest, hbody, hrows⟩ := shown_of_parse h
  rw [hbody, signRows_one hrows]

theorem parse_insertSigns {toks rest : List Token} (h : body toks = insertSignHead ++ rest) :
    parse toks = (signRows rest).map .insertSigns := by
  have hother : ∀ head, head.length ≤ insertSignHead.length → ¬ head <+: insertSignHead →
      ¬ head <+: insertSignHead ++ rest := by
    intro head hlen hnot hp
    exact hnot (List.prefix_of_prefix_length_le hp (List.prefix_append _ _) hlen)
  unfold parse
  simp only [h]
  rw [if_neg (hother _ (by decide) (by decide)), if_neg (hother _ (by decide) (by decide)),
    if_neg (hother _ (by decide) (by decide)), if_pos (List.prefix_append _ _), List.drop_left]

/-! ## Strings that arrive as they are -/

theorem lex_of_hole {pre x tail : Bytes} {toks all : List Token} (hpre : scan ⟨[], .blank⟩ pre = some ⟨toks, .str []⟩)
    (hx : litSafe x = true) (htail : finishFrom ⟨toks, .str x⟩ tail = some all) :
    lex (pre ++ (x ++ tail)) = some all := by
  rw [lex, finishFrom_append hpre, finishFrom_litSafe hx, htail]

section
variable {usr passwd sign fileName : Bytes}

theorem lex_usrNotExistCmd (hu : litSafe usr = true) :
    lex (usrNotExistCmd usr) = some (selectUsrHead ++ [.str usr, sym ';']) := by
  rw [usrNotExistCmd, List.append_assoc]
  exact lex_of_hole scan_selectUsr hu rfl

theorem lex_insertUsrCmd (hu : litSafe usr = true) (hp : litSafe passwd = true) :
    lex (insertUsrCmd usr passwd) =
      some (insertUsrHead ++ [.str usr, sym ',', .str passwd, sym ')', sym ';']) := by
  rw [insertUsrCmd]
  simp only [List.append_assoc]
  refine lex_of_hole scan_insertUsr hu ?_
  have hmid : scan ⟨insertUsrHead, .str usr⟩ (ascii "','") = some ⟨insertUsrHead ++ [.str usr, sym ','], .str []⟩ :=
    rfl
  rw [finishFrom_append hmid, finishFrom_litSafe hp]
  rfl

theorem lex_selectSignCmd (hs : litSafe sign = true) :
    lex (selectSignCmd sign) = some (selectSignHead ++ [.str sign]) := by
  rw [selectSignCmd, List.append_assoc]
  exact lex_of_hole scan_selectSign hs rfl

theorem lex_insertSignCmd (hs : litSafe sign = true) (hf : litSafe fileName = true) :
    lex (insertSignCmd sign fileName) = some (insertSignHead ++
      [sym '(', .str sign, sym ',', .str fileName, sym ',', .word (ascii "1"), sym ')', sym ';']) := by
  rw [insertSignCmd]
  simp only [List.append_assoc]
  refine lex_of_hole scan_insertSign hs ?_
  have hmid : scan ⟨insertSignHead ++ [sym '('], .str sign⟩ (ascii "','") =
      some ⟨insertSignHead ++ [sym '('] ++ [.str sign, sym ','], .str []⟩ := rfl
  rw [finishFrom_append hmid, finishFrom_litSafe hf]
  rfl

theorem lex_updateSignCmd (hs : litSafe sign = true) :
    lex (updateSignCmd sign) = some (updateSignHead ++ [.str sign]) := by
  rw [updateSignCmd, List.append_assoc]
  exact lex_of_hole scan_updateSign hs rfl

theorem read_usrNotExistCmd (hu : litSafe usr = true) : read (usrNotExistCmd usr) = some (.selectUsr usr) := by
  rw [read, lex_usrNotExistCmd hu]
  rfl

theorem read_insertUsrCmd (hu : litSafe usr = true) (hp : litSafe passwd = true) :
    read (insertUsrCmd usr passwd) = some (.insertUsr usr passwd) := by
  rw [read, lex_insertUsrCmd hu hp]
  rfl

theorem read_selectSignCmd (hs : litSafe sign = true) : read (selectSignCmd sign) = some (.selectSign sign) := by
  rw [read, lex_selectSignCmd hs]
  rfl

theorem read_insertSignCmd (hs : litSafe sign = true) (hf : litSafe fileName = true) :
    read (insertSignCmd sign fileName) = some (.insertSigns [⟨sign, fileName, 1⟩]) := by
  rw [read, lex_insertSignCmd hs hf]
  rfl

/-- The `INSERT` is one row for the sign, whatever name it stores. -/
def OneRow (sign fileName : Bytes) : Prop :=
  ∃ name, read (insertSignCmd sign fileName) = some (.insertSigns [⟨sign, name, 1⟩])

theorem OneRow.of_litSafe (hs : litSafe sign = true) (hf : litSafe fileName = true) : OneRow sign fileName :=
  ⟨fileName, read_insertSignCmd hs hf⟩

/-- A backslash may be lost from the name. -/
example : OneRow (ascii "s") (ascii "a\\b.txt") := ⟨[97, 8] ++ ascii ".txt", by decide⟩

theorem read_updateSignCmd (hs : litSafe sign = true) : read (updateSignCmd sign) = some (.updateSign sign) := by
  rw [read, lex_updateSignCmd hs]
  rfl

/-! ## And no others -/

theorem body_prefix (toks : List Token) : body toks <+: toks := by
  unfold body
  split
  · exact List.dropLast_prefix toks
  · exact List.prefix_rfl

theorem prefix_body {head toks : List Token} (h : head <+: toks) (hlast : head.getLast? ≠ some (sym ';')) :
    head <+: body toks := by
  unfold body
  split
  · rename_i hsemi
    obtain ⟨rest, rfl⟩ := h
    have hne : rest ≠ [] := by
      rintro rfl
      exact hlast (by rwa [List.append_nil] at hsemi)
    rw [List.dropLast_append_of_ne_nil hne]
    exact List.prefix_append _ _
  · exact h

theorem toks_of_body {toks head : List Token} (hlast : toks.getLast? = some (sym ';')) (h : body toks = head) :
    toks = head ++ [sym ';'] := by
  rw [body, if_pos hlast] at h
  obtain ⟨ys, rfl⟩ := List.getLast?_eq_some_iff.mp hlast
  rw [← h, List.dropLast_concat]

theorem litSafe_of_hole {pre x : Bytes} (tail : Bytes) {toks rest : List Token}
    (hpre : scan ⟨[], .blank⟩ pre = some ⟨toks, .str []⟩)
    (h : lex (pre ++ (x ++ quote :: tail)) = some (toks ++ .str x :: rest))
    (hroom : tail.length ≤ widths rest) : litSafe x = true := by
  rw [lex, finishFrom_append hpre] at h
  refine litSafe_of_finishFrom toks rest [] rfl h ?_
  simp only [Lexer.width, Mode.width, widths_append, widths_cons, Token.width, List.length_append, List.length_cons,
    List.length_nil]
  omega

theorem litSafe_of_hole_two {pre x y tail : Bytes} {toks rest : List Token}
    (hpre : scan ⟨[], .blank⟩ pre = some ⟨toks, .str []⟩)
    (h : lex (pre ++ (x ++ quote :: ch ',' :: quote :: (y ++ quote :: tail))) =
      some (toks ++ .str x :: sym ',' :: .str y :: rest))
    (hroom : tail.length ≤ widths rest) : litSafe x = true ∧ litSafe y = true := by
  have hx : litSafe x = true := by
    refine litSafe_of_hole _ hpre h ?_
    simp only [sym, widths_cons, Token.width, List.length_append, List.length_cons]
    omega
  have hmid : scan ⟨toks, .str x⟩ [quote, ch ',', quote] = some ⟨toks ++ [.str x, sym ','], .str []⟩ := by
    have hall : toks ++ [.str x] ++ [sym ','] = toks ++ [.str x, sym ','] := by simp
    rw [← hall]
    rfl
  refine ⟨hx, ?_⟩
  rw [show x ++ quote :: ch ',' :: quote :: (y ++ quote :: tail) =
      x ++ ([quote, ch ',', quote] ++ (y ++ quote :: tail)) by simp, lex, finishFrom_append hpre,
    finishFrom_litSafe hx, finishFrom_append hmid] at h
  refine litSafe_of_finishFrom (toks ++ [.str x, sym ',']) rest [] (by simp) h ?_
  simp only [Lexer.width, Mode.width, widths_append, widths_cons, widths_nil, sym, Token.width, List.length_append,
    List.length_cons, List.length_nil]
  omega

theorem toks_of_read {cmd : Bytes} {stmt : Stmt} (h : read cmd = some stmt) :
    ∃ toks, lex cmd = some toks ∧ parse toks = some stmt := by
  rw [read, Option.bind_eq_bind] at h
  exact Option.bind_eq_some_iff.mp h

section
variable {usr passwd sign fileName : Bytes}

theorem safe_of_read_usrNotExistCmd (h : read (usrNotExistCmd usr) = some (.selectUsr usr)) :
    litSafe usr = true := by
  obtain ⟨toks, hlex, hparse⟩ := toks_of_read h
  have htext : usrNotExistCmd usr =
      ascii "SELECT uid FROM Usr where name = '" ++ (usr ++ quote :: [ch ';']) := by
    rw [usrNotExistCmd, List.append_assoc]
    rfl
  have hend : usrNotExistCmd usr = ascii "SELECT uid FROM Usr where name = '" ++ (usr ++ [quote]) ++ [ch ';'] := by
    rw [htext]
    simp
  have hlast := getLast?_of_finishFrom (c := ch ';') (by decide) (hend ▸ hlex)
  rw [toks_of_body hlast (shown_of_parse hparse), htext, List.append_assoc] at hlex
  exact litSafe_of_hole _ scan_selectUsr hlex (by simp [widths, sym, Token.width])

theorem safe_of_read_insertUsrCmd (h : read (insertUsrCmd usr passwd) = some (.insertUsr usr passwd)) :
    litSafe usr = true ∧ litSafe passwd = true := by
  obtain ⟨toks, hlex, hparse⟩ := toks_of_read h
  have htext : insertUsrCmd usr passwd = ascii "INSERT INTO Usr (name, passwd) VALUES('" ++
      (usr ++ quote :: ch ',' :: quote :: (passwd ++ quote :: [ch ')', ch ';'])) := by
    rw [insertUsrCmd]
    simp only [List.append_assoc]
    rfl
  have hend : insertUsrCmd usr passwd = ascii "INSERT INTO Usr (name, passwd) VALUES('" ++
      (usr ++ quote :: ch ',' :: quote :: (passwd ++ quote :: [ch ')'])) ++ [ch ';'] := by
    rw [htext]
    simp
  have hlast := getLast?_of_finishFrom (c := ch ';') (by decide) (hend ▸ hlex)
  rw [toks_of_body hlast (shown_of_parse hparse), htext, List.append_assoc] at hlex
  exact litSafe_of_hole_two scan_insertUsr hlex (by simp [widths, sym, Token.width])

theorem safe_of_read_insertSignCmd
    (h : read (insertSignCmd sign fileName) = some (.insertSigns [⟨sign, fileName, 1⟩])) :
    litSafe sign = true ∧ litSafe fileName = true := by
  obtain ⟨toks, hlex, hparse⟩ := toks_of_read h
  have htext : insertSignCmd sign fileName = ascii "INSERT INTO SignMap (sign, fileName, reference) VALUES('" ++
      (sign ++ quote :: ch ',' :: quote :: (fileName ++ quote :: [ch ',', ch '1', ch ')', ch ';'])) := by
    rw [insertSignCmd]
    simp only [List.append_assoc]
    rfl
  have hend : insertSignCmd sign fileName = ascii "INSERT INTO SignMap (sign, fileName, reference) VALUES('" ++
      (sign ++ quote :: ch ',' :: quote :: (fileName ++ quote :: [ch ',', ch '1', ch ')'])) ++ [ch ';'] := by
    rw [htext]
    simp
  have hlast := getLast?_of_finishFrom (c := ch ';') (by decide) (hend ▸ hlex)
  have hall : insertSignHead ++ [sym '(', .str sign, sym ',', .str fileName, sym ',', .word (ascii "1"), sym ')'] ++
      [sym ';'] = insertSignHead ++ [sym '('] ++ .str sign :: sym ',' :: .str fileName ::
        [sym ',', .word (ascii "1"), sym ')', sym ';'] := by simp
  rw [toks_of_body hlast (body_of_insertSign hparse), hall, htext] at hlex
  exact litSafe_of_hole_two scan_insertSign hlex (by simp [widths, sym, Token.width, ascii])

theorem insertSigns_of_read {stmt : Stmt} (h : read (insertSignCmd sign fileName) = some stmt) :
    ∃ rows, stmt = .insertSigns rows := by
  obtain ⟨toks, hlex, hparse⟩ := toks_of_read h
  have htoks : insertSignHead ++ [sym '('] <+: toks := by
    rw [insertSignCmd, lex] at hlex
    simp only [List.append_assoc] at hlex
    rw [finishFrom_append scan_insertSign] at hlex
    exact finishFrom_toks hlex
  have hbody := prefix_body htoks (by decide)
  obtain ⟨rest, hrest⟩ := (List.prefix_append _ _).trans hbody
  rw [parse_insertSigns hrest.symm] at hparse
  obtain ⟨rows, _, rfl⟩ := Option.map_eq_some_iff.mp hparse
  exact ⟨rows, rfl⟩

theorem selectSign_of_read {stmt : Stmt} (h : read (selectSignCmd sign) = some stmt) : ∃ s, stmt = .selectSign s := by
  obtain ⟨toks, hlex, hparse⟩ := toks_of_read h
  have htoks : selectSignHead <+: toks := by
    rw [selectSignCmd, lex] at hlex
    simp only [List.append_assoc] at hlex
    rw [finishFrom_append scan_selectSign] at hlex
    exact finishFrom_toks hlex
  have hbody := prefix_body htoks (by decide)
  have hother : ∀ head, ¬ head <+: selectSignHead → ¬ selectSignHead <+: head → ¬ head <+: body toks := by
    intro head hnot hnot' hp
    rcases List.prefix_or_prefix_of_prefix hp hbody with h | h
    · exact hnot h
    · exact hnot' h
  unfold parse at hparse
  simp only at hparse
  rw [if_neg (hother _ (by decide) (by decide)), if_neg (hother _ (by decide) (by decide)),
    if_pos hbody] at hparse
  split at hparse
  · exact ⟨_, (Option.some.inj hparse).symm⟩
  · cases hparse

theorem safe_of_read_last {pre x : Bytes} {head toks : List Token}
    (hpre : scan ⟨[], .blank⟩ pre = some ⟨head, .str []⟩) (hlex : lex (pre ++ x ++ ascii "'") = some toks)
    (hbody : body toks = head ++ [.str x]) : litSafe x = true := by
  obtain ⟨rest, rfl⟩ := hbody ▸ body_prefix toks
  rw [List.append_assoc, List.append_assoc] at hlex
  exact litSafe_of_hole [] hpre hlex (Nat.zero_le _)

theorem safe_of_read_selectSignCmd (h : read (selectSignCmd sign) = some (.selectSign sign)) :
    litSafe sign = true := by
  obtain ⟨toks, hlex, hparse⟩ := toks_of_read h
  exact safe_of_read_last scan_selectSign hlex (shown_of_parse hparse)

theorem safe_of_read_updateSignCmd (h : read (updateSignCmd sign) = some (.updateSign sign)) :
    litSafe sign = true := by
  obtain ⟨toks, hlex, hparse⟩ := toks_of_read h
  exact safe_of_read_last scan_updateSign hlex (shown_of_parse hparse)

/-! ## The five commands -/

/-- Each command is the one statement it was built to be, with exactly the given strings, when and
only when its strings are safe. -/
theorem reads_as_built_iff (usr passwd sign fileName : Bytes) :
    (read (usrNotExistCmd usr) = some (.selectUsr usr) ↔ litSafe usr = true) ∧
    (read (insertUsrCmd usr passwd) = some (.insertUsr usr passwd) ↔
      litSafe usr = true ∧ litSafe passwd = true) ∧
    (read (insertSignCmd sign fileName) = some (.insertSigns [⟨sign, fileName, 1⟩]) ↔
      litSafe sign = true ∧ litSafe fileName = true) ∧
    (read (selectSignCmd sign) = some (.selectSign sign) ↔ litSafe sign = true) ∧
    (read (updateSignCmd sign) = some (.updateSign sign) ↔ litSafe sign = true) :=
  ⟨⟨safe_of_read_usrNotExistCmd, read_usrNotExistCmd⟩,
    ⟨safe_of_read_insertUsrCmd, fun h => read_insertUsrCmd h.1 h.2⟩,
    ⟨safe_of_read_insertSignCmd, fun h => read_insertSignCmd h.1 h.2⟩,
    ⟨safe_of_read_selectSignCmd, read_selectSignCmd⟩,
    ⟨safe_of_read_updateSignCmd, read_updateSignCmd⟩⟩

/-- A quote ends the literal: no user has the name that the query asks for, and an uploaded file's
name adds a row for another file. -/
theorem quote_changes_statement :
    read (usrNotExistCmd (ascii "' OR '1'='1")) ≠ some (.selectUsr (ascii "' OR '1'='1")) ∧
    read (insertSignCmd (ascii "0a") (ascii "x',1),('0b','y")) =
      some (.insertSigns [⟨ascii "0a", ascii "x", 1⟩, ⟨ascii "0b", ascii "y", 1⟩]) := by
  decide

end

end

end Stmt

end NetDisk
