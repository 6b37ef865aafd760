import NetDisk.Faults
import NetDisk.Server

/-!
# What `Write` leaves in the file

Each `write` may take all of its bytes, some or none. Nobody looks at what it took: the next one goes on where the
last one stopped, with the bytes from the start of the text.
-/

namespace NetDisk

open Machine

/-- The operations after the first one. -/
def later (faults : Nat → Option Fault) : Nat → Option Fault := fun k => faults (k + 1)

/-- What a `write` takes of the bytes it is given. -/
def taken (fault : Option Fault) (buf : Bytes) : Bytes :=
  match fault with
  | none => buf
  | some f => buf.take f.written

section
variable (env : Env) (tid : Nat) (w : World) {faults : Nat → Option Fault}

theorem faulty_quiet (op : Sys) (h : faults 0 = none) : faulty anyFails env tid op ⟨w, faults⟩ =
    ((exec env tid op w).1, ⟨(exec env tid op w).2, later faults⟩) := faulty_none h

theorem faulty_fails {f : Fault} (op : Sys) (h : faults 0 = some f) : faulty anyFails env tid op ⟨w, faults⟩ =
    ((failed f env tid op w).1, ⟨(failed f env tid op w).2, later faults⟩) := faulty_some h rfl

end

namespace FileSys

/-- What the loop and the last `write` take, all together. -/
def landedFrom (s : Bytes) : (fuel len : Nat) → (Nat → Option Fault) → Bytes
  | 0, len, faults => taken (faults 0) (s.take len)
  | fuel + 1, len, faults =>
    if len > writeLen then taken (faults 0) (s.take writeLen) ++ landedFrom s fuel (len - writeLen) (later faults)
    else taken (faults 0) (s.take len)

/-- The same for a whole text, whose writes start with the first fault. -/
def landed (str : Bytes) (faults : Nat → Option Fault) : Bytes :=
  landedFrom (cStr str) (cStr str).length (intLen (cStr str).length) faults

theorem landedFrom_quiet (s : Bytes) (fuel len : Nat) : landedFrom s fuel len (fun _ => none) = writtenFrom s fuel len := by
  induction fuel generalizing len with
  | zero => rfl
  | succ fuel ih =>
    unfold landedFrom writtenFrom
    split
    · exact congrArg (s.take writeLen ++ ·) (ih _)
    · rfl

theorem landed_quiet (str : Bytes) : landed str (fun _ => none) = written str := landedFrom_quiet _ _ _

section
variable {env : Env} {tid : Nat} {fs : FS} {db : DB} {p : Path} {h : fs.CanPut p} {fd : Nat} {old a : Bytes}
  {w : World} {faults : Nat → Option Fault}

variable (env tid faults) in
theorem Writing.step (hw : Writing fs db p h fd old a w) (buf : Bytes) : ∃ reply w',
    faulty anyFails env tid (.write fd buf) ⟨w, faults⟩ = (reply, ⟨w', later faults⟩) ∧
      Writing fs db p h fd old (a ++ taken (faults 0) buf) w' := by
  cases h0 : faults 0 with
  | none => exact ⟨_, _, faulty_quiet env tid _ _ h0, hw.write env tid buf⟩
  | some f => exact ⟨_, _, faulty_fails env tid _ _ h0, hw.write env tid (buf.take f.written)⟩

variable (env tid faults) in
theorem Writing.loop_faulty (s : Bytes) (fuel len : Nat) (hw : Writing fs db p h fd old a w) :
    ∃ len' b w' faults', (writeLoop fd s fuel len).run (faulty anyFails env tid) ⟨w, faults⟩ = (len', ⟨w', faults'⟩) ∧
      b ++ taken (faults' 0) (s.take len') = a ++ landedFrom s fuel len faults ∧ Writing fs db p h fd old b w' := by
  induction fuel generalizing a w len faults with
  | zero => exact ⟨len, a, w, faults, rfl, rfl, hw⟩
  | succ fuel ih =>
    unfold writeLoop landedFrom
    split
    · obtain ⟨reply, w', hstep, hw'⟩ := hw.step env tid faults (s.take writeLen)
      obtain ⟨len', b, w2, faults', hrun, hb, hlast⟩ := ih (later faults) (len - writeLen) hw'
      refine ⟨len', b, w2, faults', ?_, by rw [← List.append_assoc]; exact hb, hlast⟩
      exact (Prog.run_call_of _ hstep).trans hrun
    · exact ⟨len, a, w, faults, rfl, rfl, hw⟩

theorem openFile_none {path : Bytes} {old : Option Bytes} (hp : ∀ q, resolve env w.fs path = .ok q → q = p)
    (hold : w.fs.node p = old.map .file) (hno : ¬ (resolve env w.fs path = .ok p ∧ w.fs.CanPut p)) :
    exec env tid (.openFile path) w = (none, w) := by
  have hopen : openFile env w.fs path = none := by
    unfold openFile
    cases hres : resolve env w.fs path with
    | error e => rfl
    | ok q =>
      obtain rfl := hp q hres
      cases old with
      | none =>
        have hnone : w.fs.node q = none := hold
        simp only [hnone]
        rw [dif_neg fun hcan => hno ⟨hres, hcan⟩]
      | some c =>
        have hsome : w.fs.node q = some (.file c) := hold
        have hcan : w.fs.CanPut q := by
          have hne : q ≠ [] := by
            rintro rfl
            rw [w.fs.root_dir] at hsome
            cases hsome
          refine ⟨hne, ?_, by simp [hsome]⟩
          refine w.fs.parent_dir q.dropLast (q.getLast hne) ?_
          rw [List.dropLast_append_getLast hne, hsome]
          simp
        exact absurd ⟨hres, hcan⟩ hno
  simp only [exec, hopen]

end

/-! ## One call of `Write` -/

section
variable {env : Env} {tid : Nat} {w : World} {faults : Nat → Option Fault} {p : Path} {str path : Bytes}
  {old : Option Bytes} (hp : ∀ q, resolve env w.fs (cStr path) = .ok q → q = p)
  (hold : w.fs.node p = old.map .file)
include hold

/-- The file can be opened, and is. -/
def Opens (env : Env) (fs : FS) (path : Bytes) (p : Path) (fault : Option Fault) : Prop :=
  fault = none ∧ resolve env fs (cStr path) = .ok p ∧ fs.CanPut p

variable (tid str) in
theorem write_opens (hopen : Opens env w.fs path p (faults 0)) : ∃ w' faults',
    (write str path).run (faulty anyFails env tid) ⟨w, faults⟩ = (0, ⟨w', faults'⟩) ∧
      w'.fs = w.fs.put p (.file (overlay (old.getD []) (landed str (later faults)))) hopen.2.2 ∧ w'.db = w.db := by
  obtain ⟨h0, hres, hcan⟩ := hopen
  obtain ⟨w1, hexec, hw1⟩ := openFile_writing tid hres hcan hold
  have hstep := faulty_quiet env tid w (.openFile (cStr path)) h0
  rw [hexec] at hstep
  obtain ⟨len, b, w2, faults2, hloop, hb, hw2⟩ := hw1.loop_faulty env tid (later faults) (cStr str)
    (cStr str).length (intLen (cStr str).length)
  obtain ⟨reply, w3, hlast, hw3⟩ := hw2.step env tid faults2 ((cStr str).take len)
  rw [hb, List.nil_append] at hw3
  have hclose : ∃ w4, faulty anyFails env tid (.close w.nextFd) ⟨w3, later faults2⟩ = ((), ⟨w4, later (later faults2)⟩) ∧
      w4.fs = w3.fs ∧ w4.db = w3.db := by
    cases hf : later faults2 0 with
    | none => exact ⟨_, faulty_quiet env tid _ _ hf, rfl, rfl⟩
    | some f => exact ⟨_, faulty_fails env tid _ _ hf, rfl, rfl⟩
  obtain ⟨w4, hclose, hfs4, hdb4⟩ := hclose
  refine ⟨w4, later (later faults2), ?_, by rw [hfs4]; exact hw3.fs_eq, by rw [hdb4]; exact hw3.db_eq⟩
  unfold write
  refine (Prog.run_call_of _ hstep).trans ?_
  refine (Prog.run_bind_of _ hloop).trans ?_
  refine (Prog.run_call_of _ hlast).trans ?_
  exact Prog.run_call_of _ hclose

include hp

variable (tid str) in
theorem write_not_opens (hno : ¬ Opens env w.fs path p (faults 0)) :
    (write str path).run (faulty anyFails env tid) ⟨w, faults⟩ = (-1, ⟨w, later faults⟩) := by
  have hstep : faulty anyFails env tid (.openFile (cStr path)) ⟨w, faults⟩ = (none, ⟨w, later faults⟩) := by
    cases h0 : faults 0 with
    | none =>
      rw [faulty_quiet env tid _ _ h0, openFile_none hp hold fun h => hno ⟨h0, h⟩]
    | some f =>
      rw [faulty_fails env tid _ _ h0]
      rfl
  unfold write
  exact Prog.run_call_of _ hstep

end

/-! ## Piece by piece -/

theorem append_eq_iff {a rest s : Bytes} : a ++ rest = s ↔ a <+: s ∧ rest = s.drop a.length := by
  constructor
  · rintro rfl
    exact ⟨List.prefix_append a rest, by rw [List.drop_left]⟩
  · rintro ⟨⟨tail, rfl⟩, rfl⟩
    rw [List.drop_left]

theorem pieces_append (piece : Nat → Bytes) (rest s : Bytes) (m : Nat) : (List.range m).flatMap piece ++ rest = s ↔
    (∀ k < m, piece k <+: s.drop ((List.range k).flatMap piece).length) ∧
      rest = s.drop ((List.range m).flatMap piece).length := by
  induction m generalizing rest with
  | zero => simp
  | succ m ih =>
    rw [List.range_succ, List.flatMap_append, List.append_assoc, ih, List.flatMap_singleton, append_eq_iff,
      List.drop_drop, ← List.length_append, ← and_assoc]
    refine and_congr_left fun _ => ⟨fun h k hk => ?_, fun h => ⟨fun k hk => h k (by omega), h m (by omega)⟩⟩
    by_cases hlast : k = m
    · rw [hlast]
      exact h.2
    · exact h.1 k (by omega)

/-- How often the loop goes round for so many bytes. -/
def rounds (len : Nat) : Nat := (len - 1) / writeLen

/-- How many bytes the `k`th `write` is given. -/
def asked (len k : Nat) : Nat := if k < rounds len then writeLen else len - writeLen * rounds len

/-- What it takes of them. -/
def piece (str : Bytes) (faults : Nat → Option Fault) (k : Nat) : Bytes :=
  taken (faults k) ((cStr str).take (asked (intLen (cStr str).length) k))

/-- Where it puts them. -/
def offset (str : Bytes) (faults : Nat → Option Fault) (k : Nat) : Nat :=
  ((List.range k).flatMap (piece str faults)).length

theorem landedFrom_eq (s : Bytes) (fuel len : Nat) (faults : Nat → Option Fault) (h : rounds len ≤ fuel) :
    landedFrom s fuel len faults =
      (List.range (rounds len + 1)).flatMap fun k => taken (faults k) (s.take (asked len k)) := by
  have hlast : rounds len = 0 → ((List.range (rounds len + 1)).flatMap fun k => taken (faults k) (s.take (asked len k))) =
      taken (faults 0) (s.take len) := by
    intro h0
    simp [h0, asked]
  induction fuel generalizing len faults with
  | zero => exact (hlast (by omega)).symm
  | succ fuel ih =>
    unfold landedFrom
    split
    · rename_i hlen
      have hrounds : rounds len = rounds (len - writeLen) + 1 := by
        unfold rounds writeLen at *
        omega
      have hasked : ∀ k, asked len (k + 1) = asked (len - writeLen) k := by
        intro k
        unfold asked
        rw [hrounds, Nat.mul_add, Nat.mul_one, Nat.sub_sub, Nat.add_comm writeLen]
        exact if_congr (by omega) rfl rfl
      have hfirst : asked len 0 = writeLen := if_pos (by omega)
      have hnext := ih (len - writeLen) (later faults) (by omega) fun h0 => by simp [h0, asked]
      have hrange : List.range (rounds (len - writeLen) + 1 + 1) =
          0 :: (List.range (rounds (len - writeLen) + 1)).map Nat.succ := List.range_succ_eq_map
      rw [hnext, hrounds, hrange, List.flatMap_cons, hfirst, List.flatMap_map]
      simp only [Nat.succ_eq_add_one, hasked]
      rfl
    · refine (hlast ?_).symm
      unfold rounds writeLen at *
      omega

theorem landed_eq (str : Bytes) (faults : Nat → Option Fault) : landed str faults =
    (List.range (rounds (intLen (cStr str).length) + 1)).flatMap (piece str faults) := by
  refine landedFrom_eq _ _ _ _ ?_
  have hle := intLen_le (cStr str).length
  have hdiv := Nat.div_le_self (intLen (cStr str).length - 1) writeLen
  unfold rounds
  omega

theorem writeLoop_rest (env : Env) (tid fd : Nat) (s : Bytes) {fuel len : Nat} (h : rounds len ≤ fuel) (t : Faulty) :
    ((writeLoop fd s fuel len).run (faulty anyFails env tid) t).2.faults = fun k => t.faults (k + rounds len) := by
  induction fuel generalizing len t with
  | zero =>
    rw [Nat.le_zero.mp h]
    rfl
  | succ fuel ih =>
    unfold writeLoop
    split
    · rename_i hlen
      have hrounds : rounds len = rounds (len - writeLen) + 1 := by
        unfold rounds writeLen at *
        omega
      unfold sys
      rw [Prog.lift_bind, Prog.run_call, ih (by omega), faulty_rest, hrounds]
      funext k
      exact congrArg t.faults (Nat.add_assoc k _ 1)
    · have h0 : rounds len = 0 := by
        unfold rounds writeLen at *
        omega
      rw [h0]
      rfl

/-- A call that has opened the file has gone round the loop, written once more, and closed it. -/
theorem write_rest {env : Env} {tid : Nat} {str path : Bytes} {t u : Faulty}
    (h : (write str path).run (faulty anyFails env tid) t = (0, u)) :
    u.faults = fun k => t.faults (k + (rounds (intLen (cStr str).length) + 3)) := by
  have hloop : rounds (intLen (cStr str).length) ≤ (cStr str).length := by
    have hle := intLen_le (cStr str).length
    have hdiv := Nat.div_le_self (intLen (cStr str).length - 1) writeLen
    unfold rounds
    omega
  unfold write sys at h
  rw [Prog.lift_bind, Prog.run_call] at h
  cases hfd : (faulty anyFails env tid (.openFile (cStr path)) t).1 with
  | none =>
    rw [hfd] at h
    cases (Prod.mk.inj h).1
  | some fd =>
    rw [hfd] at h
    rw [← (Prod.mk.inj h).2, Prog.run_bind, Prog.lift_bind, Prog.run_call, Prog.lift_bind, Prog.run_call]
    change (faulty anyFails env tid (.close fd) _).2.faults = _
    rw [faulty_rest, faulty_rest, writeLoop_rest env tid fd _ hloop, faulty_rest]
    funext k
    exact congrArg t.faults (by omega)

/-- Each `write` takes what belongs where it puts it, and what it does not reach was there before. -/
structure Lands (str old : Bytes) (faults : Nat → Option Fault) : Prop where
  pieces : ∀ k ≤ rounds (intLen (cStr str).length), piece str faults k <+: str.drop (offset str faults k)
  rest : old.drop (offset str faults (rounds (intLen (cStr str).length) + 1)) =
    str.drop (offset str faults (rounds (intLen (cStr str).length) + 1))

theorem lands_iff {str old : Bytes} {faults : Nat → Option Fault} :
    overlay old (landed str faults) = str ↔ Lands str old faults := by
  rw [landed_eq, overlay, pieces_append]
  exact ⟨fun h => ⟨fun k hk => h.1 k (by omega), h.2⟩, fun h => ⟨fun k hk => h.pieces k (by omega), h.rest⟩⟩

/-- A success means that the file holds the text, exactly if no file is opened or every byte lands in its place. -/
theorem write_exact_iff {env : Env} {tid : Nat} {w : World} {faults : Nat → Option Fault} {p : Path} {str path : Bytes}
    {old : Option Bytes} (hp : ∀ q, resolve env w.fs (cStr path) = .ok q → q = p)
    (hold : w.fs.node p = old.map .file) :
    (((write str path).run (faulty anyFails env tid) ⟨w, faults⟩).1 = 0 →
      ((write str path).run (faulty anyFails env tid) ⟨w, faults⟩).2.world.fs.node p = some (.file str)) ↔
      (Opens env w.fs path p (faults 0) → Lands str (old.getD []) (later faults)) := by
  by_cases hopen : Opens env w.fs path p (faults 0)
  · obtain ⟨w', faults', hrun, hfs, -⟩ := write_opens tid str hold hopen
    rw [hrun, hfs, ← lands_iff]
    simp [hopen]
  · rw [write_not_opens tid str hp hold hopen]
    simp [hopen]

/-! ### A file in `/u` -/

namespace OneFile

def path : Bytes := ascii "/u/a"

def node : Path := [ascii "u", ascii "a"]

def noFaults : Nat → Option Fault := fun _ => none

/-- The first `write` takes one byte. -/
def shortWrite : Nat → Option Fault := fun k => if k = 1 then some ⟨.eio, eio_ne_eexist, 1, none, false⟩ else none

def run (w : World) (str : Bytes) (faults : Nat → Option Fault) : Int × Faulty :=
  (write str path).run (faulty anyFails .bare 0) ⟨w, faults⟩

def empty : World := Server.start .short []

/-- The file holds `abc`. -/
def full : World := (run empty (ascii "abc") noFaults).2.world

end OneFile

theorem write_exact_short :
    ((OneFile.run OneFile.empty (ascii "ab") OneFile.shortWrite).1 = 0 →
      (OneFile.run OneFile.empty (ascii "ab") OneFile.shortWrite).2.world.fs.node OneFile.node =
        some (.file (ascii "ab"))) ↔
      (Opens .bare OneFile.empty.fs OneFile.path OneFile.node (OneFile.shortWrite 0) →
        Lands (ascii "ab") [] (later OneFile.shortWrite)) := by
  have hres : resolve .bare OneFile.empty.fs (cStr OneFile.path) = .ok OneFile.node := by decide
  have hnone : OneFile.empty.fs.node OneFile.node = (none : Option Bytes).map .file := by decide
  exact write_exact_iff (fun q hq => (Except.ok.inj (hres.symm.trans hq)).symm) hnone

/-- A success for less than the text: up to a NUL, over a longer file, and of what a `write` takes. -/
theorem write_not_exact :
    (OneFile.run OneFile.empty (ascii "a" ++ [0] ++ ascii "b") OneFile.noFaults).1 = 0 ∧
    (OneFile.run OneFile.empty (ascii "a" ++ [0] ++ ascii "b") OneFile.noFaults).2.world.fs.node OneFile.node =
      some (.file (ascii "a")) ∧
    OneFile.full.fs.node OneFile.node = some (.file (ascii "abc")) ∧
    (OneFile.run OneFile.full (ascii "x") OneFile.noFaults).1 = 0 ∧
    (OneFile.run OneFile.full (ascii "x") OneFile.noFaults).2.world.fs.node OneFile.node =
      some (.file (ascii "xbc")) ∧
    (OneFile.run OneFile.empty (ascii "ab") OneFile.shortWrite).1 = 0 ∧
    (OneFile.run OneFile.empty (ascii "ab") OneFile.shortWrite).2.world.fs.node OneFile.node =
      some (.file (ascii "a")) := by
  decide

end FileSys

end NetDisk
