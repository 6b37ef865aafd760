import NetDisk.Handles

/-!
# What a call leaves open

A call leaves nothing open when it ends before it opens a directory or fetches a row. When that is depends on the
request, on the state before the call and on what goes wrong.
-/

namespace NetDisk

open Prog Machine

namespace Host

variable (limit : Nat) (env : Env) (tid : Nat) {α β : Type}

/-- From `s` the code ends with `a`, and leaves `s'`. -/
def Gives (c : Code α) (s : Host) (a : α) (s' : Host) : Prop := c.run (exec limit env tid) s = (a, s')

/-! ## The conditions -/

section
variable (fl : Flags) (request : NetDiskRequest)

open UploadRpc FileSys Mmysql

/-- A part that is there already has the digest, or is deleted. -/
def Clears (s s' : Host) : Prop :=
  Gives limit env tid (existFile (filePath fl request)) s false s' ∨
  ∃ s₁ s₂ curMd5, Gives limit env tid (existFile (filePath fl request)) s true s₁ ∧
    Gives limit env tid (md5Sum (filePath fl request)) s₁ (some curMd5) s₂ ∧
    (curMd5 = request.partSign ∧ s' = s₂ ∨
      curMd5 ≠ request.partSign ∧ ∃ rt, Gives limit env tid (deleteFile (filePath fl request)) s₂ rt s')

/-- The directories are made, the part is written, and what is there then has its digest. -/
def Counts (s s' : Host) : Prop :=
  ∃ s₁ s₂ s₃ s₄ s₅, Gives limit env tid (mkdir (fl.usrDir ++ request.usr)) s 0 s₁ ∧
    Gives limit env tid (mkdir (usrUploadDir fl request)) s₁ 0 s₂ ∧
    Gives limit env tid (mkdir (usrUploadDir fl request ++ request.fileSign ++ ascii "/")) s₂ 0 s₃ ∧
    Clears limit env tid fl request s₃ s₄ ∧
    Gives limit env tid (write request.body (filePath fl request)) s₄ 0 s₅ ∧
    Gives limit env tid (md5Sum (filePath fl request)) s₅ (some request.partSign) s'

/-- The link can be made, and the `SELECT` has a result. -/
def Selects (s : Host) : Prop :=
  ∃ s₁ s₂, Gives limit env tid (link (fileDir fl request) (linkPath fl request)) s 0 s₁ ∧
    Gives limit env tid (runQuery (selectSignCmd request.fileSign)) s₁ 0 s₂ ∧
    (s₂.machine.world.pending tid).isSome = true

/-- The directory of the parts does not open, and nothing is linked on a count of zero parts. -/
def CountSpares (s : Host) : Prop :=
  ∀ partNum s₁, Gives limit env tid (lsDir (usrUploadDir fl request ++ request.fileSign)) s partNum s₁ →
    partNum.1 = -1 ∧ (shardSize request.shard = 0 →
      ∀ shellRes s₂, Gives limit env tid (shellOut (mvCmd fl request)) s₁ shellRes s₂ → shellRes.getD [] = [] →
        ¬ Selects limit env tid fl request s₂)

/-- `usr/files` cannot be made; or the directory of the stored file does not open, and if the call gets as far as
counting the parts, that spares handles too. -/
def UploadSpares (s : Host) : Prop :=
  ∀ s₁, Gives limit env tid (mkdir (fl.usrDir ++ request.usr ++ ascii "/files")) s 0 s₁ →
    ∀ stored s₂, Gives limit env tid (existDir (fileDir fl request)) s₁ stored s₂ →
      stored = false ∧ ∀ s₃, Counts limit env tid fl request s₂ s₃ → CountSpares limit env tid fl request s₃

end

/-- The request has no name that can be read, or the `SELECT` has no result. -/
def RegisterSpares {ρ : Type} (j : Jsoncpp ρ) (reqVal : Json ρ) (s : Host) : Prop :=
  ∀ usr passwd, RegisterView.readRequest j reqVal = .ok (usr, passwd) →
  ∀ s₁, Gives limit env tid (Mmysql.runQuery (RegisterView.usrNotExistCmd usr)) s 0 s₁ →
    s₁.machine.world.pending tid = none

section
variable {limit env tid}

theorem gives_bind {p : Code α} {f : α → Code β} {s s' : Host} {b : β} : Gives limit env tid (p >>= f) s b s' ↔
    ∃ a s₁, Gives limit env tid p s a s₁ ∧ Gives limit env tid (f a) s₁ b s' := by
  unfold Gives
  rw [run_bind]
  constructor
  · exact fun h => ⟨_, _, rfl, h⟩
  · rintro ⟨a, s₁, hp, h⟩
    rw [hp]
    exact h

theorem gives_pure {a b : α} {s s' : Host} : Gives limit env tid (.pure a) s b s' ↔ a = b ∧ s = s' := by
  unfold Gives
  rw [run_pure, Prod.mk.injEq]

end

/-! ## Code that leaves nothing -/

def Tidy (c : Code α) : Prop := ∀ s, left limit env tid c s = 0

variable {limit env tid}

theorem Tidy.pure (a : α) : Tidy limit env tid (.pure a : Code α) := fun _ => rfl

theorem Tidy.sys {op : Sys} (h : ∀ s, leaves limit env tid op s = 0) : Tidy limit env tid (sys op) :=
  fun s => (add_zero _).trans (h s)

theorem left_bind_eq_zero {p : Code α} {f : α → Code β} {s : Host} : left limit env tid (p >>= f) s = 0 ↔
    left limit env tid p s = 0 ∧ ∀ a s', Gives limit env tid p s a s' → left limit env tid (f a) s' = 0 := by
  rw [left_bind, add_eq_zero]
  refine and_congr_right fun _ => ⟨fun h a s' hp => ?_, fun h => h _ _ rfl⟩
  rw [hp] at h
  exact h

theorem Gives.left_bind {c : Code α} {f : α → Code β} {s s' : Host} {a : α} (h : Gives limit env tid c s a s')
    (hleft : left limit env tid c s = 0) : left limit env tid (c >>= f) s = left limit env tid (f a) s' := by
  rw [Host.left_bind, hleft, zero_add, h]

theorem Tidy.left_bind {p : Code α} (hp : Tidy limit env tid p) {f : α → Code β} {s : Host} :
    left limit env tid (p >>= f) s = 0 ↔ ∀ a s', Gives limit env tid p s a s' → left limit env tid (f a) s' = 0 :=
  left_bind_eq_zero.trans (and_iff_right (hp s))

theorem Tidy.bind {p : Code α} {f : α → Code β} (hp : Tidy limit env tid p) (hf : ∀ a, Tidy limit env tid (f a)) :
    Tidy limit env tid (p >>= f) := fun _ => hp.left_bind.mpr fun a s' _ => hf a s'

theorem Tidy.ite {c : Prop} [Decidable c] {p q : Code α} (hp : Tidy limit env tid p) (hq : Tidy limit env tid q) :
    Tidy limit env tid (if c then p else q) := by
  split
  · exact hp
  · exact hq

theorem Tidy.left_check {p : Code Int} (hp : Tidy limit env tid p) {a : β} {q : Code β} {s : Host} :
    left limit env tid (p >>= fun rt => if rt ≠ 0 then .pure a else q) s = 0 ↔
      ∀ s', Gives limit env tid p s 0 s' → left limit env tid q s' = 0 := by
  rw [hp.left_bind]
  constructor
  · intro h s' hgives
    have hq := h 0 s' hgives
    rwa [if_neg (by simp)] at hq
  · intro h rt s' hgives
    split
    · rfl
    · rename_i hrt
      obtain rfl : rt = 0 := not_not.mp hrt
      exact h s' hgives

/-! ### The helpers -/

theorem mkdir_tidy (path : Bytes) : Tidy limit env tid (FileSys.mkdir path) :=
  (Tidy.sys fun _ => rfl).bind fun _ => .ite (.pure _) (.pure _)

theorem deleteFile_tidy (path : Bytes) : Tidy limit env tid (FileSys.deleteFile path) :=
  (Tidy.sys fun _ => rfl).bind fun _ => .ite (.pure _) (.pure _)

theorem link_tidy (src dst : Bytes) : Tidy limit env tid (FileSys.link src dst) :=
  (Tidy.sys fun _ => rfl).bind fun _ => .ite (.pure _) (.pure _)

theorem existFile_tidy (path : Bytes) : Tidy limit env tid (FileSys.existFile path) := Tidy.sys fun _ => rfl

theorem shellOut_tidy (cmd : Bytes) : Tidy limit env tid (shellOut cmd) := Tidy.sys fun _ => rfl

theorem md5Sum_tidy (path : Bytes) : Tidy limit env tid (md5Sum path) := by
  refine (shellOut_tidy _).bind fun res => ?_
  cases res <;> exact .pure _

theorem write_tidy (str path : Bytes) : Tidy limit env tid (FileSys.write str path) := write_left str path

theorem runQuery_tidy (cmd : Bytes) : Tidy limit env tid (Mmysql.runQuery cmd) :=
  (Tidy.sys fun _ => rfl).bind fun _ => .ite (.pure _) (.pure _)

theorem lockedQuery_tidy (cmd : Bytes) : Tidy limit env tid (UploadRpc.lockedQuery cmd) := by
  refine (Tidy.sys fun _ => rfl).bind fun _ => (runQuery_tidy cmd).bind fun rt => (Tidy.sys fun _ => rfl).bind fun _ => ?_
  exact .ite (.pure _) (.pure _)

theorem lsDir_one (path : Bytes) : (FileSys.lsDir path).One := by
  refine ⟨_, _, rfl, fun (names : Option (Finset Name)) => ?_⟩
  cases names <;> exact ⟨_, rfl⟩

/-! ### The three that open something -/

theorem existDir_left (path : Bytes) (s : Host) : left limit env tid (FileSys.existDir path) s = 0 ↔
    ∀ stored s', Gives limit env tid (FileSys.existDir path) s stored s' → stored = false := by
  have hleft : left limit env tid (FileSys.existDir path) s = leaves limit env tid (.opendir (cStr path)) s := add_zero _
  rw [hleft, leaves_opendir]
  constructor
  · intro h stored s' hgives
    by_contra hstored
    have hreply : (exec limit env tid (.opendir (cStr path)) s).1 = true := by
      have hval : ((FileSys.existDir path).run (exec limit env tid) s).1 = stored := congrArg Prod.fst hgives
      exact hval.trans (Bool.not_eq_false stored ▸ hstored)
    rw [if_pos hreply] at h
    exact Multiset.singleton_ne_zero _ h
  · intro h
    refine if_neg fun hreply => ?_
    exact Bool.noConfusion ((h _ _ rfl).symm.trans hreply)

theorem lsDir_run (path : Bytes) (s : Host) : (FileSys.lsDir path).run (exec limit env tid) s =
    (match (exec limit env tid (.readdir (cStr path)) s).1 with
      | none => ((-1, ∅), (exec limit env tid (.readdir (cStr path)) s).2)
      | some names =>
        ((0, names.filter fun d => d.head? ≠ some (ch '.')), (exec limit env tid (.readdir (cStr path)) s).2)) := by
  unfold FileSys.lsDir sys
  rw [lift_bind, run_call]
  cases (exec limit env tid (.readdir (cStr path)) s).1 <;> rfl

theorem lsDir_failed {path : Bytes} {s s' : Host} {partNum : Int × Finset Name}
    (h : Gives limit env tid (FileSys.lsDir path) s partNum s') (hrt : partNum.1 = -1) : partNum.2 = ∅ := by
  unfold Gives at h
  rw [lsDir_run] at h
  cases hreply : (exec limit env tid (.readdir (cStr path)) s).1 with
  | none =>
    rw [hreply] at h
    rw [← (Prod.mk.inj h).1]
  | some names =>
    rw [hreply] at h
    rw [← (Prod.mk.inj h).1] at hrt
    cases hrt

theorem lsDir_left (path : Bytes) (s : Host) : left limit env tid (FileSys.lsDir path) s = 0 ↔
    ∀ partNum s', Gives limit env tid (FileSys.lsDir path) s partNum s' → partNum.1 = -1 := by
  have hleft : left limit env tid (FileSys.lsDir path) s = leaves limit env tid (.readdir (cStr path)) s := by
    unfold FileSys.lsDir
    rw [left_bind]
    refine (congrArg₂ _ (add_zero _) ?_).trans (add_zero _)
    split <;> rfl
  rw [hleft, leaves_readdir]
  unfold Gives
  rw [lsDir_run]
  cases hreply : (exec limit env tid (.readdir (cStr path)) s).1 with
  | none =>
    refine iff_of_true (if_neg (by simp)) fun partNum s' hgives => ?_
    rw [← (Prod.mk.inj hgives).1]
  | some names =>
    refine iff_of_false (by simp) fun h => ?_
    exact absurd (h _ _ rfl) (show (0 : Int) ≠ -1 by decide)

theorem fetchRes_left (s : Host) : left limit env tid Mmysql.fetchRes s = 0 ↔ s.machine.world.pending tid = none := by
  have hleft : left limit env tid Mmysql.fetchRes s = leaves limit env tid .fetch s := add_zero _
  rw [hleft, leaves_fetch]
  cases s.machine.world.pending tid with
  | none => exact iff_of_true rfl rfl
  | some rows => exact iff_of_false (by simp) (by simp)

theorem selected_left {a : β} {f : Option Row → Code β} (hf : ∀ row, Tidy limit env tid (f row)) (cmd : Bytes) (s : Host) :
    left limit env tid (Mmysql.runQuery cmd >>= fun rt => if rt ≠ 0 then .pure a else Mmysql.fetchRes >>= f) s = 0 ↔
      ∀ s', Gives limit env tid (Mmysql.runQuery cmd) s 0 s' → s'.machine.world.pending tid = none := by
  refine (runQuery_tidy _).left_check.trans (forall₂_congr fun s' _ => ?_)
  rw [left_bind_eq_zero, fetchRes_left]
  exact and_iff_left fun row s'' _ => hf row s''

/-! ### `UploadRpc::Do` -/

section
variable (fl : Flags) (request : NetDiskRequest) (response : NetDiskResponse)

open UploadRpc FileSys Mmysql

theorem countLink_left (sign fileName : Bytes) (s : Host) : left limit env tid (countLink sign fileName) s = 0 ↔
    ∀ s', Gives limit env tid (runQuery (selectSignCmd sign)) s 0 s' → s'.machine.world.pending tid = none := by
  refine selected_left (fun row => ?_) _ s
  cases row <;> exact lockedQuery_tidy _

theorem linkToUsr_left (s : Host) : left limit env tid
    (linkToUsr (fileDir fl request) (linkPath fl request) request.fileSign request.fileName) s = 0 ↔
      ¬ Selects limit env tid fl request s := by
  have hcheck : left limit env tid
      (linkToUsr (fileDir fl request) (linkPath fl request) request.fileSign request.fileName) s = 0 ↔
      ∀ s₁, Gives limit env tid (link (fileDir fl request) (linkPath fl request)) s 0 s₁ →
        left limit env tid (countLink request.fileSign request.fileName) s₁ = 0 := (link_tidy _ _).left_check
  rw [hcheck]
  unfold Selects
  constructor
  · rintro h ⟨s₁, s₂, hlink, hquery, hrows⟩
    rw [(countLink_left _ _ s₁).mp (h s₁ hlink) s₂ hquery] at hrows
    cases hrows
  · intro h s₁ hlink
    refine (countLink_left _ _ s₁).mpr fun s₂ hquery => ?_
    by_contra hrows
    exact h ⟨s₁, s₂, hlink, hquery, Option.isSome_iff_ne_none.mpr hrows⟩

theorem publish_left (s : Host) : left limit env tid (publish fl request response) s = 0 ↔
    ∀ shellRes s', Gives limit env tid (shellOut (mvCmd fl request)) s shellRes s' → shellRes.getD [] = [] →
      ¬ Selects limit env tid fl request s' := by
  unfold publish
  rw [(shellOut_tidy _).left_bind]
  refine forall₃_congr fun shellRes s' _ => ?_
  split
  · rename_i hprints
    exact iff_of_true rfl fun hnone => absurd hnone hprints
  · rename_i hprints
    rw [left_bind_eq_zero, linkToUsr_left]
    refine (and_iff_left fun rt s₂ _ => ?_).trans (imp_iff_right (not_not.mp hprints)).symm
    split <;> rfl

theorem checkArrived_left (s : Host) : left limit env tid (checkArrived fl request response) s = 0 ↔
    CountSpares limit env tid fl request s := by
  unfold checkArrived allPartArrived
  rw [bind_assoc', left_bind_eq_zero, lsDir_left]
  have hempty : ∀ s', left limit env tid (if decide (shardSize request.shard = (∅ : Finset Name).card) = true then
      publish fl request response else .pure (response.answer true "success")) s' = 0 ↔
        (shardSize request.shard = 0 → left limit env tid (publish fl request response) s' = 0) := by
    intro s'
    rw [Finset.card_empty]
    split
    · rename_i hzero
      exact (imp_iff_right (of_decide_eq_true hzero)).symm
    · rename_i hzero
      exact iff_of_true rfl fun h => absurd (decide_eq_true h) hzero
  constructor
  · rintro ⟨hls, hrest⟩ partNum s' hgives
    have hrt := hls partNum s' hgives
    have hleft := hrest partNum s' hgives
    rw [lsDir_failed hgives hrt] at hleft
    exact ⟨hrt, fun hzero => (publish_left fl request response s').mp ((hempty s').mp hleft hzero)⟩
  · intro h
    refine ⟨fun partNum s' hgives => (h partNum s' hgives).1, fun partNum s' hgives => ?_⟩
    obtain ⟨hrt, hzero⟩ := h partNum s' hgives
    rw [lsDir_failed hgives hrt]
    refine (hempty s').mpr fun hshard => ?_
    rw [publish_left]
    exact hzero hshard

theorem writePart_left (s : Host) : left limit env tid (writePart fl request response) s = 0 ↔
    ∀ s₁ s₂, Gives limit env tid (write request.body (filePath fl request)) s 0 s₁ →
      Gives limit env tid (md5Sum (filePath fl request)) s₁ (some request.partSign) s₂ →
        CountSpares limit env tid fl request s₂ := by
  unfold writePart
  refine (write_tidy _ _).left_check.trans ?_
  have hsign : ∀ s₁, left limit env tid (checkSign fl request response) s₁ = 0 ↔
      ∀ s₂, Gives limit env tid (md5Sum (filePath fl request)) s₁ (some request.partSign) s₂ →
        CountSpares limit env tid fl request s₂ := by
    intro s₁
    unfold checkSign
    rw [(md5Sum_tidy _).left_bind]
    constructor
    · intro h s₂ hgives
      have hleft := h _ s₂ hgives
      dsimp only at hleft
      rw [if_neg (by simp)] at hleft
      exact (checkArrived_left fl request response s₂).mp hleft
    · intro h curMd5 s₂ hgives
      cases curMd5 with
      | none => rfl
      | some curMd5 =>
        dsimp only
        split
        · rfl
        · rename_i hsame
          rw [not_not.mp hsame] at hgives
          exact (checkArrived_left fl request response s₂).mpr (h s₂ hgives)
  exact ⟨fun h s₁ s₂ hwrite => (hsign s₁).mp (h s₁ hwrite) s₂, fun h s₁ hwrite => (hsign s₁).mpr fun s₂ => h s₁ s₂ hwrite⟩

theorem storePart_left (s : Host) : left limit env tid (storePart fl request response) s = 0 ↔
    ∀ s', Clears limit env tid fl request s s' → left limit env tid (writePart fl request response) s' = 0 := by
  have hsame : ∀ response' s', left limit env tid (writePart fl request response') s' = 0 ↔
      left limit env tid (writePart fl request response) s' = 0 := fun response' s' =>
    (writePart_left fl request response' s').trans (writePart_left fl request response s').symm
  unfold storePart
  rw [(existFile_tidy _).left_bind]
  constructor
  · rintro h s' (hnew | ⟨s₁, s₂, curMd5, hthere, hmd5, hclear⟩)
    · have hleft := h false s' hnew
      rwa [if_neg (by simp)] at hleft
    · have hleft := h true s₁ hthere
      rw [if_pos rfl, existingPart, (md5Sum_tidy _).left_bind] at hleft
      have hleft := hleft _ s₂ hmd5
      dsimp only at hleft
      rcases hclear with ⟨hgood, rfl⟩ | ⟨hbad, rt, hdelete⟩
      · rw [if_pos hgood] at hleft
        exact (hsame _ s').mp hleft
      · rw [if_neg hbad, (deleteFile_tidy _).left_bind] at hleft
        exact hleft rt s' hdelete
  · intro h exist s₁ hthere
    cases exist with
    | false =>
      rw [if_neg (by simp)]
      exact h s₁ (Or.inl hthere)
    | true =>
      rw [if_pos rfl, existingPart, (md5Sum_tidy _).left_bind]
      intro curMd5 s₂ hmd5
      cases curMd5 with
      | none => rfl
      | some curMd5 =>
        dsimp only
        split
        · rename_i hgood
          exact (hsame _ s₂).mpr (h s₂ (Or.inr ⟨s₁, s₂, curMd5, hthere, hmd5, Or.inl ⟨hgood, rfl⟩⟩))
        · rename_i hbad
          rw [(deleteFile_tidy _).left_bind]
          exact fun rt s' hdelete => h s' (Or.inr ⟨s₁, s₂, curMd5, hthere, hmd5, Or.inr ⟨hbad, rt, hdelete⟩⟩)

theorem gives_makeTmpDirs {s s' : Host} : Gives limit env tid (makeTmpDirs fl request) s true s' ↔
    ∃ s₁ s₂, Gives limit env tid (mkdir (fl.usrDir ++ request.usr)) s 0 s₁ ∧
      Gives limit env tid (mkdir (usrUploadDir fl request)) s₁ 0 s₂ ∧
      Gives limit env tid (mkdir (usrUploadDir fl request ++ request.fileSign ++ ascii "/")) s₂ 0 s' := by
  unfold makeTmpDirs
  constructor
  · intro h
    obtain ⟨rt, s₁, h1, h⟩ := gives_bind.mp h
    split at h
    · cases (gives_pure.mp h).1
    rename_i hrt
    obtain rfl : rt = 0 := not_not.mp hrt
    obtain ⟨rt, s₂, h2, h⟩ := gives_bind.mp h
    split at h
    · cases (gives_pure.mp h).1
    rename_i hrt
    obtain rfl : rt = 0 := not_not.mp hrt
    obtain ⟨rt, s₃, h3, h⟩ := gives_bind.mp h
    obtain ⟨hrt, rfl⟩ := gives_pure.mp h
    obtain rfl : rt = 0 := of_decide_eq_true hrt
    exact ⟨s₁, s₂, h1, h2, h3⟩
  · rintro ⟨s₁, s₂, h1, h2, h3⟩
    refine gives_bind.mpr ⟨0, s₁, h1, ?_⟩
    rw [if_neg (by simp)]
    refine gives_bind.mpr ⟨0, s₂, h2, ?_⟩
    rw [if_neg (by simp)]
    exact gives_bind.mpr ⟨0, s', h3, rfl⟩

theorem makeTmpDirs_tidy : Tidy limit env tid (makeTmpDirs fl request) := by
  unfold makeTmpDirs
  refine (mkdir_tidy _).bind fun _ => .ite (.pure _) ?_
  refine (mkdir_tidy _).bind fun _ => .ite (.pure _) ?_
  exact (mkdir_tidy _).bind fun _ => .pure _

theorem uploadPart_left (s : Host) : left limit env tid (uploadPart fl request response) s = 0 ↔
    ∀ s', Counts limit env tid fl request s s' → CountSpares limit env tid fl request s' := by
  unfold uploadPart
  rw [(makeTmpDirs_tidy fl request).left_bind]
  have hstored : ∀ s₃, left limit env tid (storePart fl request response) s₃ = 0 ↔
      ∀ s₄ s₅ s', Clears limit env tid fl request s₃ s₄ →
        Gives limit env tid (write request.body (filePath fl request)) s₄ 0 s₅ →
        Gives limit env tid (md5Sum (filePath fl request)) s₅ (some request.partSign) s' →
        CountSpares limit env tid fl request s' := by
    intro s₃
    rw [storePart_left]
    refine forall_congr' fun s₄ => ?_
    rw [writePart_left]
    exact ⟨fun h s₅ s' hclear => h hclear s₅ s', fun h hclear s₅ s' => h s₅ s' hclear⟩
  constructor
  · rintro h s' ⟨s₁, s₂, s₃, s₄, s₅, h1, h2, h3, hclear, hwrite, hmd5⟩
    have hleft := h true s₃ ((gives_makeTmpDirs fl request).mpr ⟨s₁, s₂, h1, h2, h3⟩)
    rw [if_pos rfl] at hleft
    exact (hstored s₃).mp hleft s₄ s₅ s' hclear hwrite hmd5
  · intro h made s₃ hmade
    cases made with
    | false => rfl
    | true =>
      obtain ⟨s₁, s₂, h1, h2, h3⟩ := (gives_makeTmpDirs fl request).mp hmade
      rw [if_pos rfl]
      exact (hstored s₃).mpr fun s₄ s₅ s' hclear hwrite hmd5 =>
        h s' ⟨s₁, s₂, s₃, s₄, s₅, h1, h2, h3, hclear, hwrite, hmd5⟩

/-- A call of `Do` leaves nothing open exactly if it spares handles. -/
theorem Do_left (s : Host) : left limit env tid (Do fl request response) s = 0 ↔
    UploadSpares limit env tid fl request s := by
  unfold Do
  refine (mkdir_tidy _).left_check.trans (forall₂_congr fun s₁ _ => ?_)
  rw [left_bind_eq_zero, existDir_left]
  constructor
  · rintro ⟨hopen, hrest⟩ stored s₂ hgives
    obtain rfl := hopen stored s₂ hgives
    refine ⟨rfl, ?_⟩
    have hleft := hrest false s₂ hgives
    rw [if_neg (by simp), uploadPart_left] at hleft
    exact hleft
  · intro h
    refine ⟨fun stored s₂ hgives => (h stored s₂ hgives).1, fun stored s₂ hgives => ?_⟩
    obtain ⟨rfl, hrest⟩ := h stored s₂ hgives
    rw [if_neg (by simp), uploadPart_left]
    exact hrest

end

/-! ### `RegisterView::Process` -/

section
variable {ρ : Type} (j : Jsoncpp ρ) (fl : Flags)

open RegisterView FileSys Mmysql

theorem usrNotExist_left (usr : Bytes) (s : Host) : left limit env tid (usrNotExist usr) s = 0 ↔
    ∀ s₁, Gives limit env tid (runQuery (usrNotExistCmd usr)) s 0 s₁ → s₁.machine.world.pending tid = none := by
  refine selected_left (fun row => ?_) _ s
  cases row <;> exact .pure _

theorem regist_left (usr passwd : Bytes) (s : Host) :
    left limit env tid (regist fl usr passwd) s = 0 ↔ left limit env tid (usrNotExist usr) s = 0 := by
  have hinsert : Tidy limit env tid (insertUsr usr passwd) :=
    (runQuery_tidy _).bind fun _ => .ite (.pure _) (.pure _)
  have hdir : Tidy limit env tid (createUsrDir fl usr) := (mkdir_tidy _).bind fun _ => .ite (.pure _) (.pure _)
  unfold regist
  rw [left_bind_eq_zero]
  refine and_iff_left fun rt s₁ _ => ?_
  refine Tidy.ite (.pure _) (Tidy.ite (.pure _) ?_) s₁
  exact hinsert.bind fun _ => .ite (.pure _) (hdir.bind fun _ => .ite (.pure _) (.pure _))

theorem Process_left (reqVal : Json ρ) (clientFd : Int) (s : Host) :
    left limit env tid (RegisterView.Process j fl reqVal clientFd) s = 0 ↔ RegisterSpares limit env tid j reqVal s := by
  unfold RegisterView.Process RegisterSpares
  cases hread : readRequest j reqVal with
  | error crash => exact iff_of_true rfl fun _ _ h => nomatch h
  | ok names =>
    have hrespond : ∀ msg, Tidy limit env tid (respond j clientFd .null msg) := by
      intro msg
      unfold respond
      cases (Json.null : Json ρ).set "Response" (.str msg) with
      | error crash => exact .pure _
      | ok val => exact Tidy.bind ((Tidy.sys fun _ => rfl).bind fun _ => .pure _) fun _ => .pure _
    rw [left_bind_eq_zero, regist_left, usrNotExist_left]
    refine (and_iff_left fun msg s₁ _ => hrespond msg s₁).trans ?_
    constructor
    · rintro h usr passwd hnames
      obtain rfl := Except.ok.inj hnames
      exact h
    · exact fun h => h names.1 names.2 rfl

end

/-! ## Enough descriptors -/

theorem needs_le (op : Sys) : needs op ≤ 2 := by
  cases op <;> simp [needs]

/-- With two descriptors to spare, code that leaves nothing lacks none. -/
theorem Balanced.not_lacks {p : Code α} (hp : Balanced limit env tid p) {s : Host} (hleft : left limit env tid p s = 0)
    (hspare : s.used + 2 ≤ limit) : ∀ m ∈ p.moments (exec limit env tid) s, ¬ Lacks limit m.1 m.2 := by
  rintro m hm ⟨hneeds, hlack⟩
  have hle := hp.asking s m hm hneeds
  rw [hleft, zero_add] at hle
  have hused : m.2.used ≤ s.used := Multiset.countP_le_of_le _ hle
  have htwo := needs_le m.1
  omega

end Host

end NetDisk
