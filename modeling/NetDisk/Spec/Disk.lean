import NetDisk.Lib.Md5
import NetDisk.Text
import Mathlib.Data.Set.Card

/-!
# What an upload is for

The server keeps, for each user and file, the parts that have arrived, and hands all of them over
to the stored files when there are as many as the file has. A file that is stored is only linked.
-/

namespace NetDisk

/-- A file is named by its sign, and its parts by their numbers. -/
structure Disk where
  user : Name → Bool
  part : Name → Name → Nat → Option Bytes
  stored : Name → Bool
  store : Name → Nat → Option Bytes
  linked : Name → Name → Bool

/-- One part on its way: `body` is what would be written. -/
structure Part where
  usr : Name
  sign : Name
  index : Nat
  count : Nat
  digest : Bytes
  body : Bytes

inductive Outcome where
  | noUser
  | linked
  | rejected
  | accepted
  | published
deriving DecidableEq

/-- Whether a part is written, good or not. -/
def Outcome.writes : Outcome → Bool
  | .rejected | .accepted | .published => true
  | .noUser | .linked => false

/-- Whether the file is linked to the user, and counted. -/
def Outcome.links : Outcome → Bool
  | .linked | .published => true
  | .noUser | .rejected | .accepted => false

/-- The answer to the client, when `counted` is whether the link could be counted. -/
def Outcome.res (counted : Bool) : Outcome → Bool
  | .linked | .published => counted
  | .accepted => true
  | .noUser | .rejected => false

/-- What a part's file holds after the write, when it held `old` before. -/
def Part.content (r : Part) : (old : Option Bytes) → Bytes
  | none => r.body
  | some old => if Md5.hexDigest old = r.digest then overlay old r.body else r.body

@[simp] theorem Part.content_none (r : Part) : r.content none = r.body := rfl

theorem Part.content_good {r : Part} {old : Bytes} (h : Md5.hexDigest old = r.digest) :
    r.content (some old) = overlay old r.body := if_pos h

theorem Part.content_bad {r : Part} {old : Bytes} (h : Md5.hexDigest old ≠ r.digest) :
    r.content (some old) = r.body := if_neg h

/-- One more reference. -/
def countUp : Option Nat → Option Nat
  | none => some 1
  | some k => some (k + 1)

theorem countUp_ne_none (k : Option Nat) : countUp k ≠ none := by
  cases k <;> simp [countUp]

namespace Disk

variable (d : Disk) (r : Part)

def arrived (u s : Name) : Set Nat := {i | d.part u s i ≠ none}

/-- What the part's file holds after the write: only a part with the right digest stays below it. -/
def content : Bytes :=
  match d.part r.usr r.sign r.index with
  | none => r.body
  | some old => if Md5.hexDigest old = r.digest then overlay old r.body else r.body

def putPart : Disk :=
  { d with part := fun u s i =>
      if u = r.usr ∧ s = r.sign ∧ i = r.index then some (d.content r) else d.part u s i }

def link (u s : Name) : Disk :=
  { d with linked := fun u' s' => (u' = u ∧ s' = s) || d.linked u' s' }

/-- The arrived parts become the stored file. -/
def publish (u s : Name) : Disk :=
  { d with
    part := fun u' s' i => if u' = u ∧ s' = s then none else d.part u' s' i
    stored := fun s' => s' = s || d.stored s'
    store := fun s' i => if s' = s then d.part u s i else d.store s' i }

open Classical in
noncomputable def outcome : Outcome :=
  if d.user r.usr = false then .noUser
  else if d.stored r.sign = true then .linked
  else if Md5.hexDigest (d.content r) ≠ r.digest then .rejected
  else if ((d.putPart r).arrived r.usr r.sign).ncard ≠ r.count then .accepted
  else .published

noncomputable def upload : Disk :=
  match d.outcome r with
  | .noUser => d
  | .linked => d.link r.usr r.sign
  | .rejected | .accepted => d.putPart r
  | .published => ((d.putPart r).publish r.usr r.sign).link r.usr r.sign

theorem content_eq : d.content r = r.content (d.part r.usr r.sign r.index) := by
  unfold content Part.content
  cases d.part r.usr r.sign r.index <;> rfl

/-! ## What an outcome says -/

section
variable {d r}

theorem outcome_noUser : d.outcome r = .noUser ↔ d.user r.usr = false := by
  unfold outcome
  split_ifs <;> simp_all

theorem outcome_linked : d.outcome r = .linked ↔ d.user r.usr = true ∧ d.stored r.sign = true := by
  unfold outcome
  split_ifs <;> simp_all

theorem outcome_published : d.outcome r = .published ↔
    d.user r.usr = true ∧ d.stored r.sign = false ∧ Md5.hexDigest (d.content r) = r.digest ∧
      ((d.putPart r).arrived r.usr r.sign).ncard = r.count := by
  unfold outcome
  split_ifs <;> simp_all

theorem outcome_rejected : d.outcome r = .rejected ↔
    d.user r.usr = true ∧ d.stored r.sign = false ∧ Md5.hexDigest (d.content r) ≠ r.digest := by
  unfold outcome
  split_ifs <;> simp_all

theorem outcome_accepted : d.outcome r = .accepted ↔
    d.user r.usr = true ∧ d.stored r.sign = false ∧ Md5.hexDigest (d.content r) = r.digest ∧
      ((d.putPart r).arrived r.usr r.sign).ncard ≠ r.count := by
  unfold outcome
  split_ifs <;> simp_all

end

/-! ## What an upload changes -/

section
variable (u s : Name) (i : Nat)

theorem user_upload : (d.upload r).user = d.user := by
  unfold upload
  cases d.outcome r <;> rfl

theorem stored_upload : (d.upload r).stored s = true ↔ d.stored s = true ∨ d.outcome r = .published ∧ s = r.sign := by
  unfold upload
  cases d.outcome r <;> simp [link, putPart, publish, or_comm]

theorem store_upload : (d.upload r).store s i =
    if d.outcome r = .published ∧ s = r.sign then (d.putPart r).part r.usr r.sign i else d.store s i := by
  unfold upload
  cases d.outcome r <;> simp [link, putPart, publish]

theorem linked_upload : (d.upload r).linked u s = true ↔
    d.linked u s = true ∨ (d.outcome r).links = true ∧ u = r.usr ∧ s = r.sign := by
  unfold upload
  cases d.outcome r <;> simp [link, putPart, publish, Outcome.links, or_comm]

theorem part_upload : (d.upload r).part u s i =
    if d.outcome r = .published ∧ u = r.usr ∧ s = r.sign then none
    else if (d.outcome r).writes = true ∧ u = r.usr ∧ s = r.sign ∧ i = r.index then some (d.content r)
    else d.part u s i := by
  unfold upload
  cases d.outcome r <;> simp [link, putPart, publish, Outcome.writes]

theorem part_putPart : (d.putPart r).part u s i =
    if u = r.usr ∧ s = r.sign ∧ i = r.index then some (d.content r) else d.part u s i := rfl

variable {d r i} in
theorem putPart_arrived : (d.putPart r).part r.usr r.sign i ≠ none ↔
    i = r.index ∨ d.part r.usr r.sign i ≠ none := by
  rw [part_putPart]
  by_cases hi : i = r.index
  · simp [hi]
  · rw [if_neg fun h => hi h.2.2]
    simp [hi]

end

/-! ## References -/

/-- The references after an upload whose link can be counted. -/
noncomputable def refsAfter (refs : Name → Option Nat) (s : Name) : Option Nat :=
  if (d.outcome r).links = true ∧ s = r.sign then countUp (refs s) else refs s

variable {d r} in
theorem of_links (h : (d.outcome r).links = true) :
    d.user r.usr = true ∧ (d.upload r).stored r.sign = true := by
  cases hout : d.outcome r with
  | linked =>
    obtain ⟨hu, hst⟩ := outcome_linked.mp hout
    exact ⟨hu, (stored_upload d r r.sign).mpr (Or.inl hst)⟩
  | published =>
    exact ⟨(outcome_published.mp hout).1, (stored_upload d r r.sign).mpr (Or.inr ⟨hout, rfl⟩)⟩
  | noUser => simp [hout, Outcome.links] at h
  | rejected => simp [hout, Outcome.links] at h
  | accepted => simp [hout, Outcome.links] at h

theorem refsAfter_none {refs : Name → Option Nat} (h : ∀ s, refs s = none ↔ d.stored s = false) (s : Name) :
    d.refsAfter r refs s = none ↔ (d.upload r).stored s = false := by
  unfold refsAfter
  split
  · rename_i hl
    obtain ⟨hl, rfl⟩ := hl
    have hsome : countUp (refs r.sign) ≠ none := by cases refs r.sign <;> simp [countUp]
    simp [hsome, (of_links hl).2]
  · rename_i hl
    rw [h, ← Bool.not_eq_true, ← Bool.not_eq_true, not_iff_not, stored_upload]
    refine ⟨Or.inl, fun hst => hst.resolve_right ?_⟩
    rintro ⟨hout, rfl⟩
    exact hl ⟨by rw [hout]; rfl, rfl⟩

/-! ## Counting the parts -/

theorem arrived_of_ncard {u s : Name} {n : Nat} (hrange : ∀ i, d.part u s i ≠ none → i < n)
    (hcount : n ≤ (d.arrived u s).ncard) (i : Nat) : d.part u s i ≠ none ↔ i < n := by
  have hsub : d.arrived u s ⊆ (Finset.range n : Set Nat) := by
    intro j hj
    simpa using hrange j hj
  have heq := Set.eq_of_subset_of_ncard_le hsub (by rwa [Set.ncard_coe_finset, Finset.card_range])
    (Finset.finite_toSet _)
  have := Set.ext_iff.mp heq i
  simpa [arrived] using this

theorem ncard_of_arrived {u s : Name} {n : Nat} (h : ∀ i, d.part u s i ≠ none ↔ i < n) :
    (d.arrived u s).ncard = n := by
  have heq : d.arrived u s = (Finset.range n : Set Nat) := by
    ext j
    simpa [arrived] using h j
  rw [heq, Set.ncard_coe_finset, Finset.card_range]

end Disk

end NetDisk
