import NetDisk.Publish

/-!
# Undamaged uploads

When every body is the right one, the parts of each user and file grow until all are there, and
then the file is stored, counted and linked.
-/

namespace NetDisk

open Machine UploadRpc Server FileSys

variable {env : Env} {fl : Flags}

namespace Disk

variable (n : Name → Nat) (b : Name → Nat → Bytes)

/-- The right part `i` of a file. -/
structure Right (r : Part) : Prop where
  index_lt : r.index < n r.sign
  count_eq : r.count = n r.sign
  body_eq : r.body = b r.sign r.index
  digest_eq : r.digest = Md5.hexDigest (b r.sign r.index)

/-- What the disk and the tables are after the parts `sent`. -/
structure Progress (sent : Name → Name → Nat → Prop) (disk : Disk) (refs : Name → Option Nat) : Prop where
  sent_lt : ∀ u s i, sent u s i → i < n s
  /-- The parts of a file that is not stored are those that were sent. -/
  part_iff : ∀ u s, disk.stored s = false → ∀ i, disk.part u s i ≠ none ↔ sent u s i
  part_body : ∀ u s i c, disk.part u s i = some c → c = b s i
  missing : ∀ u s, disk.stored s = false → ∃ i < n s, ¬ sent u s i
  sent_all : ∀ s, disk.stored s = true → ∃ u, ∀ i < n s, sent u s i
  store_eq : ∀ s, disk.stored s = true → ∀ i, disk.store s i = if i < n s then some (b s i) else none
  linked_all : ∀ u s, (∀ i < n s, sent u s i) → disk.linked u s = true
  refs_none : ∀ s, refs s = none ↔ disk.stored s = false

variable {n b} {sent : Name → Name → Nat → Prop} {disk : Disk} {refs : Name → Option Nat} {r : Part}

/-- The parts sent, and `r`. -/
def sentWith (r : Part) (sent : Name → Name → Nat → Prop) (u s : Name) (i : Nat) : Prop :=
  sent u s i ∨ u = r.usr ∧ s = r.sign ∧ i = r.index

section
variable (h : Progress n b sent disk refs) (hr : Right n b r) (huser : disk.user r.usr = true)
include h hr

theorem content_right : disk.content r = b r.sign r.index := by
  unfold content
  cases hp : disk.part r.usr r.sign r.index with
  | none => exact hr.body_eq
  | some c =>
    obtain rfl := h.part_body _ _ _ _ hp
    simp [hr.digest_eq, hr.body_eq]

theorem putPart_body (u s : Name) (i : Nat) (c : Bytes) (hc : (disk.putPart r).part u s i = some c) : c = b s i := by
  rw [part_putPart] at hc
  split at hc
  · rename_i he
    rw [← Option.some.inj hc, content_right h hr, he.2.1, he.2.2]
  · exact h.part_body u s i c hc

omit hr in
theorem putPart_iff (u s : Name) (hs : disk.stored s = false) (i : Nat) :
    (disk.putPart r).part u s i ≠ none ↔ sentWith r sent u s i := by
  rw [part_putPart, sentWith, ← h.part_iff u s hs i]
  split
  · rename_i he
    simp [he]
  · rename_i he
    simp [he]

theorem sentWith_lt (u s : Name) (i : Nat) (hsent : sentWith r sent u s i) : i < n s := by
  rcases hsent with hsent | ⟨_, rfl, rfl⟩
  · exact h.sent_lt u s i hsent
  · exact hr.index_lt

include huser

theorem outcome_right : disk.outcome r = .linked ∨ disk.outcome r = .accepted ∨ disk.outcome r = .published := by
  cases hout : disk.outcome r with
  | noUser =>
    have := outcome_noUser.mp hout
    rw [huser] at this
    simp at this
  | rejected =>
    have := (outcome_rejected.mp hout).2.2
    rw [content_right h hr, hr.digest_eq] at this
    exact absurd rfl this
  | linked => exact Or.inl rfl
  | accepted => exact Or.inr (Or.inl rfl)
  | published => exact Or.inr (Or.inr rfl)

theorem published_iff (hs : disk.stored r.sign = false) :
    disk.outcome r = .published ↔ ∀ i < n r.sign, sentWith r sent r.usr r.sign i := by
  rw [outcome_published]
  constructor
  · rintro ⟨_, _, _, hcount⟩ i hi
    refine (putPart_iff h r.usr r.sign hs i).mp ((arrived_of_ncard _ ?_ (n := n r.sign) ?_ i).mpr hi)
    · exact fun j hj => sentWith_lt h hr _ _ j ((putPart_iff h r.usr r.sign hs j).mp hj)
    · rw [hcount, hr.count_eq]
  · intro hall
    refine ⟨huser, hs, by rw [content_right h hr, hr.digest_eq], ?_⟩
    rw [hr.count_eq]
    apply ncard_of_arrived
    intro i
    rw [putPart_iff h r.usr r.sign hs i]
    exact ⟨sentWith_lt h hr _ _ i, hall i⟩

theorem part_upload_right (u s : Name) (i : Nat) (hs : (disk.upload r).stored s = false) :
    (disk.upload r).part u s i = (disk.putPart r).part u s i := by
  have hold : disk.stored s = false ∧ ¬ (disk.outcome r = .published ∧ s = r.sign) := by
    rw [← Bool.not_eq_true, ← not_or, ← stored_upload, hs]
    simp
  rw [part_upload, if_neg fun hp => hold.2 ⟨hp.1, hp.2.2⟩, part_putPart]
  by_cases he : u = r.usr ∧ s = r.sign ∧ i = r.index
  · have hw : (disk.outcome r).writes = true := by
      rcases outcome_right h hr huser with hout | hout | hout
      · have := (outcome_linked.mp hout).2
        rw [← he.2.1, hold.1] at this
        simp at this
      · rw [hout]; rfl
      · rw [hout]; rfl
    rw [if_pos ⟨hw, he⟩, if_pos he]
  · rw [if_neg fun h' => he h'.2, if_neg he]

theorem progress_upload : Progress n b (sentWith r sent) (disk.upload r) (disk.refsAfter r refs) := by
  have hstored := stored_upload disk r
  -- A file that is not stored afterwards was not stored before.
  have hbefore : ∀ s, (disk.upload r).stored s = false → disk.stored s = false := by
    intro s hs
    by_contra hne
    have := (hstored s).mpr (Or.inl (by simpa using hne))
    rw [hs] at this
    simp at this
  refine ⟨sentWith_lt h hr, ?_, ?_, ?_, ?_, ?_, ?_, refsAfter_none disk r h.refs_none⟩
  · intro u s hs i
    rw [part_upload_right h hr huser u s i hs]
    exact putPart_iff h u s (hbefore s hs) i
  · intro u s i c hc
    rw [part_upload] at hc
    split_ifs at hc with h1 h2
    · rw [← Option.some.inj hc, content_right h hr, h2.2.2.1, h2.2.2.2]
    · exact h.part_body u s i c hc
  · intro u s hs
    by_cases hall : ∀ i < n s, sentWith r sent u s i
    · exfalso
      obtain ⟨i, hi, hnot⟩ := h.missing u s (hbefore s hs)
      obtain ⟨rfl, rfl, _⟩ := (hall i hi).resolve_left hnot
      have hpub := (published_iff h hr huser (hbefore _ hs)).mpr hall
      have := (hstored r.sign).mpr (Or.inr ⟨hpub, rfl⟩)
      rw [hs] at this
      simp at this
    · simpa only [not_forall, exists_prop] using hall
  · intro s hs
    rcases (hstored s).mp hs with hs' | ⟨hpub, rfl⟩
    · obtain ⟨u, hu⟩ := h.sent_all s hs'
      exact ⟨u, fun i hi => Or.inl (hu i hi)⟩
    · exact ⟨r.usr, (published_iff h hr huser (outcome_published.mp hpub).2.1).mp hpub⟩
  · intro s hs i
    rw [store_upload]
    split
    · rename_i hpub
      obtain ⟨hpub, rfl⟩ := hpub
      have hst := (outcome_published.mp hpub).2.1
      have hall := (published_iff h hr huser hst).mp hpub
      have hiff := putPart_iff h r.usr r.sign hst (r := r) i
      split
      · rename_i hi
        obtain ⟨c, hc⟩ := Option.ne_none_iff_exists'.mp (hiff.mpr (hall i hi))
        rw [hc, putPart_body h hr _ _ _ _ hc]
      · rename_i hi
        by_contra hne
        exact hi (sentWith_lt h hr _ _ i (hiff.mp hne))
    · rename_i hpub
      exact h.store_eq s (((hstored s).mp hs).resolve_right hpub) i
  · intro u s hall
    rw [linked_upload]
    by_cases hold : ∀ i < n s, sent u s i
    · exact Or.inl (h.linked_all u s hold)
    · -- The last part of this user: the file is stored, or gets stored.
      simp only [not_forall] at hold
      obtain ⟨i, hi, hnot⟩ := hold
      obtain ⟨rfl, rfl, _⟩ := (hall i hi).resolve_left hnot
      refine Or.inr ⟨?_, rfl, rfl⟩
      cases hst : disk.stored r.sign with
      | true => rw [outcome_linked.mpr ⟨huser, hst⟩]; rfl
      | false => rw [(published_iff h hr huser hst).mpr hall]; rfl

end

end Disk

/-! ## Runs -/

/-- A request that brings the right part of a file. -/
structure Undamaged (n : Name → Nat) (b : Name → Nat → Bytes) (r : NetDiskRequest) : Prop where
  usr_alnum : Alnum r.usr
  sign_hex : Hex32 r.fileSign
  shard_eq : r.shard.toNat = n r.fileSign
  index_lt : r.partIndex.toNat < n r.fileSign
  body_eq : r.body = b r.fileSign r.partIndex.toNat
  sign_eq : r.partSign = Md5.hexDigest (b r.fileSign r.partIndex.toNat)
  one_row : Stmt.OneRow r.fileSign r.fileName

/-- The files have parts that one write can write, and a count that is an `int`. -/
structure Writable (n : Name → Nat) (b : Name → Nat → Bytes) : Prop where
  count_pos : ∀ s, 1 ≤ n s
  count_lt : ∀ s, n s < 2147483648
  body_nul : ∀ s, ∀ i < n s, (0 : Byte) ∉ b s i
  body_length : ∀ s, ∀ i < n s, (b s i).length ≤ writeLen

/-- User `u` has sent part `i` of `s`. -/
def Sent (requests : List NetDiskRequest) (u s : Name) (i : Nat) : Prop :=
  ∃ r ∈ requests, r.usr = u ∧ r.fileSign = s ∧ r.partIndex.toNat = i

theorem sent_append (done : List NetDiskRequest) (r : NetDiskRequest) :
    Sent (done ++ [r]) = Disk.sentWith (Part.of r) (Sent done) := by
  funext u s i
  apply propext
  constructor
  · rintro ⟨x, hx, rfl, rfl, rfl⟩
    rcases List.mem_append.mp hx with hx | hx
    · exact Or.inl ⟨x, hx, rfl, rfl, rfl⟩
    · rw [List.mem_singleton.mp hx]
      exact Or.inr ⟨rfl, rfl, rfl⟩
  · rintro (⟨x, hx, h⟩ | ⟨rfl, rfl, rfl⟩)
    · exact ⟨x, List.mem_append_left _ hx, h⟩
    · exact ⟨r, by simp, rfl, rfl, rfl⟩

section
variable {n : Name → Nat} {b : Name → Nat → Bytes} {r : NetDiskRequest}

theorem Undamaged.plainNames (h : Undamaged n b r) : PlainNames r := ⟨h.usr_alnum.plain, h.sign_hex.plain⟩

theorem Undamaged.right (h : Undamaged n b r) (hw : Writable n b) : Disk.Right n b (Part.of r) where
  index_lt := h.index_lt
  count_eq := by
    have hlt := hw.count_lt r.fileSign
    rw [← h.shard_eq] at hlt
    exact (shardSize_eq hlt).trans h.shard_eq
  body_eq := by
    have h0 := hw.body_nul _ _ h.index_lt
    have hlen := hw.body_length _ _ h.index_lt
    rw [← h.body_eq] at h0 hlen
    exact (written_eq_self h0 hlen).trans h.body_eq
  digest_eq := h.sign_eq

end

section
variable {n : Name → Nat} {b : Name → Nat → Bytes} {w : World} {requests : List NetDiskRequest}
  (hw : Writable n b) (hempty : EmptyDirs fl w.fs) (hrows : w.db.signMap = [])
  (hreq : ∀ r ∈ requests, Undamaged n b r)
  (huser : ∀ r ∈ requests, w.fs.node (fl.usrRoot ++ [r.usr]) = some .dir)
include hw hempty hrows hreq huser

variable (env) in
theorem serve_progress : ∀ done, done <+: requests → Shape fl (serve env fl w done).fs ∧
    (disk fl (serve env fl w done)).user = (disk fl w).user ∧
    Disk.Progress n b (Sent done) (disk fl (serve env fl w done)) (serve env fl w done).db.refs := by
  refine serve_invariant (fun done w' => Shape fl w'.fs ∧ (disk fl w').user = (disk fl w).user ∧
    Disk.Progress n b (Sent done) (disk fl w') w'.db.refs) ?_ ?_
  · refine ⟨hempty.shape, rfl, ?_⟩
    have hpart := hempty.part_none
    have hst := hempty.stored_false
    refine ⟨?_, ?_, ?_, ?_, ?_, ?_, ?_, ?_⟩
    · simp [Sent]
    · intro u s _ i
      simp [disk, hpart, Sent]
    · intro u s i c hc
      rw [disk, hpart] at hc
      simp at hc
    · intro u s _
      exact ⟨0, hw.count_pos s, by simp [Sent]⟩
    · intro s hs
      rw [disk, hst] at hs
      simp at hs
    · intro s hs
      rw [disk, hst] at hs
      simp at hs
    · intro u s hall
      obtain ⟨r, hr, _⟩ := hall 0 (hw.count_pos s)
      simp at hr
    · intro s
      rw [disk, hst]
      simp [DB.refs, hrows]
  · rintro done r hpre ⟨hs, hdu, hprog⟩
    have hmem : r ∈ requests := hpre.subset (by simp)
    have hr := hreq r hmem
    obtain ⟨hs', hdisk, _⟩ := handle_spec env hs hr.plainNames
    have hu : (disk fl (serve env fl w done)).user (Part.of r).usr = true := by
      rw [hdu]
      simp [disk, Disk.of, Part.of, huser r hmem]
    rw [hdisk, handle_refs env hs hr.plainNames hr.one_row, sent_append, Disk.user_upload]
    exact ⟨hs', hdu, Disk.progress_upload hprog (hr.right hw) hu⟩

theorem serve_answers (done : List NetDiskRequest) (r : NetDiskRequest) (hpre : done ++ [r] <+: requests) :
    (handle env fl (serve env fl w done) r).1.res = some true := by
  have hmem : r ∈ requests := hpre.subset (by simp)
  have hr := hreq r hmem
  obtain ⟨hs, hdu, hprog⟩ := serve_progress env hw hempty hrows hreq huser done
    ((List.prefix_append done [r]).trans hpre)
  obtain ⟨_, _, hres, _⟩ := handle_spec env hs hr.plainNames
  have hu : (disk fl (serve env fl w done)).user (Part.of r).usr = true := by
    rw [hdu]
    simp [disk, Disk.of, Part.of, huser r hmem]
  rw [hres, (linkQueries_counts hr.plainNames.2.litSafe hr.one_row).1]
  rcases Disk.outcome_right hprog (hr.right hw) hu with hout | hout | hout <;> rw [hout] <;> rfl

/-- Every request is answered with success. A file is stored exactly when one user has sent all its parts,
with all of them as they were sent; exactly the stored files have a row; and each user who has sent all
parts of a file has a link to it. -/
theorem uploads_complete :
    (∀ done r, done ++ [r] <+: requests → (handle env fl (serve env fl w done) r).1.res = some true) ∧
    ∀ s,
      ((serve env fl w requests).fs.node (fl.filesRoot ++ [s]) = some .dir ↔
        ∃ u, ∀ i < n s, Sent requests u s i) ∧
      ((serve env fl w requests).fs.node (fl.filesRoot ++ [s]) = some .dir →
        (∀ f, (serve env fl w requests).fs.node (fl.filesRoot ++ [s, f]) ≠ none ↔ ∃ i < n s, f = toString i) ∧
        ∀ i < n s, (serve env fl w requests).fs.node (fl.filesRoot ++ [s, toString i]) = some (.file (b s i))) ∧
      ((∃ row ∈ (serve env fl w requests).db.signMap, row.sign = s) ↔
        (serve env fl w requests).fs.node (fl.filesRoot ++ [s]) = some .dir) ∧
      ∀ u, (∀ i < n s, Sent requests u s i) →
        (serve env fl w requests).fs.node (fl.usrRoot ++ [u, FILES, s]) = some (.link (fl.filesDir ++ s)) := by
  refine ⟨serve_answers hw hempty hrows hreq huser, fun s => ?_⟩
  obtain ⟨hs, _, hprog⟩ := serve_progress env hw hempty hrows hreq huser requests List.prefix_rfl
  generalize serve env fl w requests = w' at hs hprog
  have hst : w'.fs.node (fl.filesRoot ++ [s]) = some .dir ↔ (disk fl w').stored s = true := by simp [disk, Disk.of]
  refine ⟨?_, ?_, ?_, ?_⟩
  · rw [hst]
    refine ⟨hprog.sent_all s, ?_⟩
    rintro ⟨u, hall⟩
    by_contra hnot
    obtain ⟨i, hi, hmiss⟩ := hprog.missing u s (by simpa using hnot)
    exact hmiss (hall i hi)
  · intro hdir
    have hstore := hprog.store_eq s (hst.mp hdir)
    refine ⟨fun f => ?_, fun i hi => Disk.store_eq_some.mp ((hstore i).trans (if_pos hi))⟩
    rw [Disk.store_names hs]
    refine exists_congr fun i => and_congr_left fun _ => ?_
    rw [← disk, hstore i]
    split <;> simp_all
  · rw [hst]
    have hnone := hprog.refs_none s
    rw [DB.refs_eq_none, ← Bool.not_eq_true] at hnone
    rw [← not_iff_not, ← hnone]
    simp
  · intro u hall
    have hlinked := hprog.linked_all u s hall
    simp only [disk, Disk.of, decide_eq_true_eq] at hlinked
    obtain ⟨m, hm⟩ := Option.ne_none_iff_exists'.mp hlinked
    rw [hm, (hs.usr_entry _ _ hm).1 rfl]

end

/-! ### A file of two parts -/

namespace TwoParts

def body : Name → Nat → Bytes := fun _ i => if i = 0 then ascii "a" else ascii "b"

def good : List NetDiskRequest := [request "bob" 1 "b", request "alice" 0 "a", request "bob" 0 "a"]

theorem good_undamaged : ∀ r ∈ good, Undamaged (fun _ => 2) body r := by
  have hsign : Hex32 sign := by decide +kernel
  intro r hr
  simp only [good, List.mem_cons, List.not_mem_nil, or_false] at hr
  rcases hr with rfl | rfl | rfl
  · exact ⟨by decide +kernel, hsign, rfl, by decide, rfl, rfl, one_row⟩
  · exact ⟨by decide +kernel, hsign, rfl, by decide, rfl, rfl, one_row⟩
  · exact ⟨by decide +kernel, hsign, rfl, by decide, rfl, rfl, one_row⟩

theorem good_user : ∀ r ∈ good, world.fs.node (Flags.short.usrRoot ++ [r.usr]) = some .dir := by
  decide +kernel

theorem writable : Writable (fun _ => 2) body where
  count_pos _ := by omega
  count_lt _ := by omega
  body_nul s i _ := by
    unfold body
    split <;> decide
  body_length s i _ := by
    unfold body
    split <;> decide

/-- A good part of another file, with a name that closes the literal. -/
def quoted : NetDiskRequest where
  opType := 5
  shard := 1
  partIndex := 0
  partSign := Md5.hexDigest (ascii "a")
  fileName := ascii "x',1),('" ++ sign ++ ascii "','y"
  fileSign := Md5.hexDigest (ascii "a")
  usr := ascii "bob"
  body := ascii "a"

end TwoParts

theorem uploads_complete_two :
    (∀ done r, done ++ [r] <+: TwoParts.good →
      (handle .bare .short (serve .bare .short TwoParts.world done) r).1.res = some true) ∧
    ∀ s,
      ((serve .bare .short TwoParts.world TwoParts.good).fs.node (Flags.short.filesRoot ++ [s]) = some .dir ↔
        ∃ u, ∀ i < 2, Sent TwoParts.good u s i) ∧
      ((serve .bare .short TwoParts.world TwoParts.good).fs.node (Flags.short.filesRoot ++ [s]) = some .dir →
        (∀ f, (serve .bare .short TwoParts.world TwoParts.good).fs.node (Flags.short.filesRoot ++ [s, f]) ≠ none ↔
          ∃ i < 2, f = toString i) ∧
        ∀ i < 2, (serve .bare .short TwoParts.world TwoParts.good).fs.node
          (Flags.short.filesRoot ++ [s, toString i]) = some (.file (TwoParts.body s i))) ∧
      ((∃ row ∈ (serve .bare .short TwoParts.world TwoParts.good).db.signMap, row.sign = s) ↔
        (serve .bare .short TwoParts.world TwoParts.good).fs.node (Flags.short.filesRoot ++ [s]) = some .dir) ∧
      ∀ u, (∀ i < 2, Sent TwoParts.good u s i) →
        (serve .bare .short TwoParts.world TwoParts.good).fs.node (Flags.short.usrRoot ++ [u, FILES, s]) =
          some (.link (Flags.short.filesDir ++ s)) :=
  uploads_complete TwoParts.writable (EmptyDirs.start _ _) rfl TwoParts.good_undamaged TwoParts.good_user

/-- A file name with a quote in it makes a row for a file that is not stored. And from 2^31 parts on,
no number of arrived parts is ever the count. -/
theorem quoted_name_adds_row :
    (handle .bare .short TwoParts.world TwoParts.quoted).1.res = some true ∧
    (∃ row ∈ (serve .bare .short TwoParts.world [TwoParts.quoted]).db.signMap, row.sign = TwoParts.sign) ∧
    (serve .bare .short TwoParts.world [TwoParts.quoted]).fs.node (Flags.short.filesRoot ++ [TwoParts.sign]) = none ∧
    ∀ k ≤ 4294967296, shardSize 2147483648 ≠ k := by
  refine ⟨by decide +kernel, by decide +kernel, by decide +kernel, fun k hk h => ?_⟩
  have hbig : 4294967296 < shardSize 2147483648 := by decide
  omega

end NetDisk
