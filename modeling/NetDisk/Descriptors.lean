import Mathlib.Data.List.Nodup
import NetDisk.Code.ShortConnection

/-!
# Who has a descriptor

A number is in the pipe or in the hands of one worker from `accept` to `close`, and stands for the same
connection all that time. This is so as long as every `write` to a pipe and every `read` from one
succeeds.
-/

namespace NetDisk

namespace ShortConnection

variable {k : Nat}

/-- `client_fd`, in a callback. -/
def Phase.held : Phase → List Int
  | .idle => []
  | .got fd | .received fd | .processed fd => [fd]

/-- What the callback has done with it. -/
def Phase.done : Phase → List Use
  | .idle | .got _ => []
  | .received _ => [.recv]
  | .processed _ => [.recv, .process]

/-- What a callback does. -/
def script : List Use := [.recv, .process, .close]

namespace State

/-- The descriptors that a worker has, or will read. -/
def line (s : State k) (i : Fin k) : List Int := (s.phase i).held ++ s.pipe i

def history (s : State k) (c : Nat) : List Use :=
  (s.log.filter fun t => t.target = some (.client c)).map Touch.use

/-- A worker has the connection, or will read its descriptor. -/
def Waiting (s : State k) (c : Nat) : Prop := ∃ i, ∃ fd ∈ s.line i, s.table fd = some (.client c)

/-- A worker uses only connections that were handed to it; a connection is processed at most once; and it is closed once,
or waits and is not closed yet. -/
structure HandledOnce (s : State k) : Prop where
  own : ∀ t ∈ s.log, ∃ c, t.target = some (.client c) ∧ s.accepted[c]? = some (some t.worker)
  process_le : ∀ c, (s.history c).count .process ≤ 1
  close_once : ∀ c < s.accepted.length,
    (s.history c).count .close = 1 ∧ ¬ s.Waiting c ∨ (s.history c).count .close = 0 ∧ s.Waiting c

end State

/-! ## The descriptors -/

/-- In the lines are the descriptors of the open connections: each once, and in the line of the worker that the
connection was handed to. -/
structure Placed (line : Fin k → List Int) (table : Int → Option Target) (accepted : List (Option (Fin k))) : Prop where
  nodup : ∀ i, (line i).Nodup
  apart : ∀ {i i' fd}, fd ∈ line i → fd ∈ line i' → i = i'
  line_client : ∀ {i fd}, fd ∈ line i → ∃ c, table fd = some (.client c) ∧ accepted[c]? = some (some i)
  client_line : ∀ {fd c}, table fd = some (.client c) → ∃ i, fd ∈ line i
  unique : ∀ {fd fd' c}, table fd = some (.client c) → table fd' = some (.client c) → fd = fd'

section
variable {line : Fin k → List Int} {table : Int → Option Target} {accepted : List (Option (Fin k))}

theorem accepted_append {c : Nat} {w w' : Option (Fin k)} (h : accepted[c]? = some w) :
    (accepted ++ [w'])[c]? = some w := by
  rw [List.getElem?_append_left (List.getElem?_eq_some_iff.mp h).1, h]

theorem Placed.accepted_eq (h : Placed line table accepted) {i : Fin k} {fd : Int} {c : Nat} (hm : fd ∈ line i)
    (hfd : table fd = some (.client c)) : accepted[c]? = some (some i) := by
  obtain ⟨c', hc', hacc⟩ := h.line_client hm
  rw [hfd] at hc'
  cases hc'
  exact hacc

theorem Placed.client_lt (h : Placed line table accepted) {fd : Int} {c : Nat} (hfd : table fd = some (.client c)) :
    c < accepted.length := by
  obtain ⟨i, hi⟩ := h.client_line hfd
  exact (List.getElem?_eq_some_iff.mp (h.accepted_eq hi hfd)).1

theorem Placed.not_mem (h : Placed line table accepted) {fd : Int} (hfd : ∀ c, table fd ≠ some (.client c)) (i : Fin k) :
    fd ∉ line i := by
  intro hm
  obtain ⟨c, hc, _⟩ := h.line_client hm
  exact hfd c hc

theorem Placed.congr (h : Placed line table accepted) {table' : Int → Option Target}
    (htable : ∀ fd c, table' fd = some (.client c) ↔ table fd = some (.client c)) : Placed line table' accepted where
  nodup := h.nodup
  apart := h.apart
  line_client hm := by
    obtain ⟨c, hc, hacc⟩ := h.line_client hm
    exact ⟨c, (htable _ c).mpr hc, hacc⟩
  client_line hc := h.client_line ((htable _ _).mp hc)
  unique h1 h2 := h.unique ((htable _ _).mp h1) ((htable _ _).mp h2)

theorem mem_update {i i' : Fin k} {l : List Int} {fd : Int} :
    fd ∈ Function.update line i l i' ↔ (i' = i ∧ fd ∈ l) ∨ (i' ≠ i ∧ fd ∈ line i') := by
  rw [Function.update_apply]
  by_cases h : i' = i <;> simp [h]

theorem Placed.push (h : Placed line table accepted) {fd : Int} (hfd : table fd = none) (i : Fin k) :
    Placed (Function.update line i (line i ++ [fd])) (Function.update table fd (some (.client accepted.length)))
      (accepted ++ [some i]) := by
  have hnew : ∀ i', fd ∉ line i' := h.not_mem fun c hc => by simp [hfd] at hc
  have hmem : ∀ {i' fd'}, fd' ∈ Function.update line i (line i ++ [fd]) i' ↔ fd' ∈ line i' ∨ (i' = i ∧ fd' = fd) := by
    intro i' fd'
    rw [mem_update]
    by_cases hi : i' = i
    · simp [hi]
    · simp [hi]
  constructor
  case nodup =>
    intro i'
    rw [Function.update_apply]
    split
    · refine List.nodup_append.mpr ⟨h.nodup i, List.nodup_singleton fd, ?_⟩
      intro a ha b hb hab
      rw [hab, List.mem_singleton.mp hb] at ha
      exact hnew i ha
    · exact h.nodup i'
  case apart =>
    intro i1 i2 fd' h1 h2
    rcases hmem.mp h1 with h1 | ⟨hi1, he1⟩ <;> rcases hmem.mp h2 with h2 | ⟨hi2, he2⟩
    · exact h.apart h1 h2
    · exact absurd (he2 ▸ h1) (hnew i1)
    · exact absurd (he1 ▸ h2) (hnew i2)
    · rw [hi1, hi2]
  case line_client =>
    intro i' fd' hm
    rw [Function.update_apply]
    rcases hmem.mp hm with hm | ⟨rfl, rfl⟩
    · obtain ⟨c, hc, hacc⟩ := h.line_client hm
      have hne : fd' ≠ fd := fun he => hnew i' (he ▸ hm)
      exact ⟨c, by rw [if_neg hne, hc], accepted_append hacc⟩
    · exact ⟨_, if_pos rfl, List.getElem?_concat_length⟩
  case client_line =>
    intro fd' c hc
    rw [Function.update_apply] at hc
    split at hc
    · exact ⟨i, hmem.mpr (Or.inr ⟨rfl, ‹_›⟩)⟩
    · obtain ⟨i', hm⟩ := h.client_line hc
      exact ⟨i', hmem.mpr (Or.inl hm)⟩
  case unique =>
    intro fd1 fd2 c h1 h2
    rw [Function.update_apply] at h1 h2
    split at h1 <;> split at h2
    · exact Eq.trans ‹_› (Eq.symm ‹_›)
    · cases h1
      exact absurd (h.client_lt h2) (Nat.lt_irrefl _)
    · cases h2
      exact absurd (h.client_lt h1) (Nat.lt_irrefl _)
    · exact h.unique h1 h2

theorem Placed.pop (h : Placed line table accepted) {i : Fin k} {fd : Int} {rest : List Int} (hline : line i = fd :: rest) :
    Placed (Function.update line i rest) (Function.update table fd none) accepted := by
  have hrest : fd ∉ rest ∧ rest.Nodup := by
    have hnodup := h.nodup i
    rw [hline] at hnodup
    exact List.nodup_cons.mp hnodup
  have hmem : ∀ {i' fd'}, fd' ∈ Function.update line i rest i' ↔ fd' ∈ line i' ∧ fd' ≠ fd := by
    intro i' fd'
    rw [mem_update]
    by_cases hi : i' = i
    · subst hi
      rw [hline]
      constructor
      · rintro (⟨_, hm⟩ | ⟨hne, _⟩)
        · exact ⟨List.mem_cons_of_mem _ hm, fun he => hrest.1 (he ▸ hm)⟩
        · exact absurd rfl hne
      · rintro ⟨hm, hne⟩
        exact Or.inl ⟨rfl, (List.mem_cons.mp hm).resolve_left hne⟩
    · have hother : fd' ∈ line i' → fd' ≠ fd := by
        rintro hm rfl
        exact hi (h.apart hm (by rw [hline]; exact List.mem_cons_self))
      simp only [hi, false_and, ne_eq, not_false_eq_true, true_and, false_or]
      exact ⟨fun hm => ⟨hm, hother hm⟩, And.left⟩
  constructor
  case nodup =>
    intro i'
    rw [Function.update_apply]
    split
    · exact hrest.2
    · exact h.nodup i'
  case apart => exact fun h1 h2 => h.apart (hmem.mp h1).1 (hmem.mp h2).1
  case line_client =>
    intro i' fd' hm
    obtain ⟨c, hc, hacc⟩ := h.line_client (hmem.mp hm).1
    exact ⟨c, by rw [Function.update_apply, if_neg (hmem.mp hm).2, hc], hacc⟩
  case client_line =>
    intro fd' c hc
    rw [Function.update_apply] at hc
    split at hc
    · cases hc
    · obtain ⟨i', hm⟩ := h.client_line hc
      exact ⟨i', hmem.mpr ⟨hm, ‹_›⟩⟩
  case unique =>
    intro fd1 fd2 c h1 h2
    rw [Function.update_apply] at h1 h2
    split at h1
    · cases h1
    · split at h2
      · cases h2
      · exact h.unique h1 h2

end

namespace State

/-! ## What was done -/

/-- What the log says of each connection. -/
structure Recorded (s : State k) : Prop where
  own : ∀ t ∈ s.log, ∃ c, t.target = some (.client c) ∧ s.accepted[c]? = some (some t.worker)
  pipe_history : ∀ {i fd c}, fd ∈ s.pipe i → s.table fd = some (.client c) → s.history c = []
  held_history : ∀ {i fd c}, fd ∈ (s.phase i).held → s.table fd = some (.client c) → s.history c = (s.phase i).done
  closed_history : ∀ {c}, c < s.accepted.length → (∀ fd, s.table fd ≠ some (.client c)) → s.history c = script
  new_history : ∀ {c}, s.accepted.length ≤ c → s.history c = []

structure Inv (s : State k) : Prop where
  placed : Placed s.line s.table s.accepted
  recorded : s.Recorded

theorem Inv.start (own : Int → Bool) : (start own : State k).Inv := by
  have hclient : ∀ fd c, (ShortConnection.start own : State k).table fd ≠ some (.client c) := by
    intro fd c h
    change (if own fd = true then some Target.server else none) = _ at h
    split at h <;> cases h
  constructor
  · constructor
    case nodup => exact fun _ => List.nodup_nil
    case apart => exact fun h => absurd h List.not_mem_nil
    case line_client => exact fun h => absurd h List.not_mem_nil
    case client_line => exact fun h => absurd h (hclient _ _)
    case unique => exact fun h => absurd h (hclient _ _)
  · constructor
    case own => exact fun t h => absurd h List.not_mem_nil
    case pipe_history => exact fun h => absurd h List.not_mem_nil
    case held_history => exact fun h => absurd h List.not_mem_nil
    case closed_history => exact fun h => absurd h (Nat.not_lt_zero _)
    case new_history => exact fun _ => rfl

theorem Inv.open_history {s : State k} (h : s.Inv) {fd : Int} {c : Nat} (hfd : s.table fd = some (.client c)) :
    s.history c <+: [.recv, .process] := by
  obtain ⟨i, hi⟩ := h.placed.client_line hfd
  rcases List.mem_append.mp hi with hi | hi
  · rw [h.recorded.held_history hi hfd]
    cases s.phase i <;> simp [Phase.done]
  · rw [h.recorded.pipe_history hi hfd]
    exact List.nil_prefix

theorem Inv.handledOnce {s : State k} (h : s.Inv) : s.HandledOnce := by
  have hopen : ∀ {fd c}, s.table fd = some (.client c) →
      (s.history c).count .process ≤ 1 ∧ (s.history c).count .close = 0 := by
    intro fd c hfd
    have hpre := (h.open_history hfd).sublist
    exact ⟨hpre.count_le _, Nat.le_zero.mp (hpre.count_le Use.close)⟩
  refine ⟨h.recorded.own, fun c => ?_, fun c hc => ?_⟩
  · by_cases hc : c < s.accepted.length
    · by_cases hfd : ∃ fd, s.table fd = some (.client c)
      · obtain ⟨fd, hfd⟩ := hfd
        exact (hopen hfd).1
      · rw [h.recorded.closed_history hc fun fd hfd' => hfd ⟨fd, hfd'⟩]
        decide
    · rw [h.recorded.new_history (Nat.le_of_not_lt hc)]
      decide
  · by_cases hfd : ∃ fd, s.table fd = some (.client c)
    · obtain ⟨fd, hfd⟩ := hfd
      obtain ⟨i, hi⟩ := h.placed.client_line hfd
      exact Or.inr ⟨(hopen hfd).2, i, fd, hi, hfd⟩
    · refine Or.inl ⟨?_, fun ⟨_, fd, _, hfd'⟩ => hfd ⟨fd, hfd'⟩⟩
      rw [h.recorded.closed_history hc fun fd hfd' => hfd ⟨fd, hfd'⟩]
      decide

/-! ## The steps -/

variable {s : State k}

theorem line_mem_held {i : Fin k} {fd : Int} (h : fd ∈ (s.phase i).held) : fd ∈ s.line i := List.mem_append_left _ h

theorem line_mem_pipe {i : Fin k} {fd : Int} (h : fd ∈ s.pipe i) : fd ∈ s.line i := List.mem_append_right _ h

theorem history_touch (s : State k) (i : Fin k) (use : Use) (fd : Int) (phase : Phase) (c : Nat) :
    (s.touch i use fd phase).history c =
      if s.table fd = some (.client c) then s.history c ++ [use] else s.history c := by
  unfold history touch
  rw [List.filter_append, List.map_append]
  by_cases hfd : s.table fd = some (.client c) <;> simp [hfd]

theorem Inv.accept (h : s.Inv) {fd : Int} (hfd : s.table fd = none) (i : Fin k) :
    ({ s with
      table := Function.update s.table fd (some (.client s.accepted.length))
      pipe := Function.update s.pipe i (s.pipe i ++ [fd])
      accepted := s.accepted ++ [some i] } : State k).Inv := by
  have hnew : ∀ i', fd ∉ s.line i' := h.placed.not_mem fun c hc => by simp [hfd] at hc
  constructor
  · convert h.placed.push hfd i using 1
    funext i'
    by_cases hi : i' = i
    · subst hi
      simp [line]
    · simp [line, hi]
  · constructor
    case own =>
      intro t ht
      obtain ⟨c, hc, hacc⟩ := h.recorded.own t ht
      exact ⟨c, hc, accepted_append hacc⟩
    case pipe_history =>
      intro i' fd' c hm hc
      change Function.update _ _ _ _ = _ at hc
      rw [Function.update_apply] at hc
      split at hc
      · cases hc
        exact h.recorded.new_history (Nat.le_refl _)
      · rename_i hne
        refine h.recorded.pipe_history (i := i') ?_ hc
        rcases mem_update.mp hm with ⟨rfl, hm⟩ | ⟨_, hm⟩
        · exact (List.mem_append.mp hm).resolve_right fun hm => hne (List.mem_singleton.mp hm)
        · exact hm
    case held_history =>
      intro i' fd' c hm hc
      have hne : fd' ≠ fd := fun he => hnew i' (he ▸ line_mem_held hm)
      change Function.update _ _ _ _ = _ at hc
      rw [Function.update_apply, if_neg hne] at hc
      exact h.recorded.held_history hm hc
    case closed_history =>
      intro c hc hclosed
      have hc' : c ≤ s.accepted.length := by
        have hlen : c < (s.accepted ++ [some i]).length := hc
        rw [List.length_append, List.length_singleton] at hlen
        omega
      rcases Nat.lt_or_eq_of_le hc' with hlt | rfl
      · refine h.recorded.closed_history hlt fun fd' hfd' => hclosed fd' ?_
        have hne : fd' ≠ fd := by
          rintro rfl
          rw [hfd] at hfd'
          cases hfd'
        exact (Function.update_of_ne hne _ _).trans hfd'
      · exact absurd (Function.update_self _ _ _) (hclosed fd)
    case new_history =>
      intro c hc
      have hlen : (s.accepted ++ [some i]).length ≤ c := hc
      rw [List.length_append, List.length_singleton] at hlen
      exact h.recorded.new_history (by omega)

theorem Inv.read (h : s.Inv) {i : Fin k} {fd : Int} {rest : List Int} (hphase : s.phase i = .idle)
    (hpipe : s.pipe i = fd :: rest) :
    ({ s with
      pipe := Function.update s.pipe i rest
      phase := Function.update s.phase i (.got fd) } : State k).Inv := by
  have hfd : fd ∈ s.pipe i := by
    rw [hpipe]
    exact List.mem_cons_self
  constructor
  · convert h.placed using 1
    funext i'
    by_cases hi : i' = i
    · subst hi
      simp [line, hphase, hpipe, Phase.held]
    · simp [line, hi]
  · refine ⟨h.recorded.own, ?_, ?_, h.recorded.closed_history, h.recorded.new_history⟩
    · intro i' fd' c hm hc
      refine h.recorded.pipe_history (i := i') ?_ hc
      rcases mem_update.mp hm with ⟨hi, hrest⟩ | ⟨_, hold⟩
      · rw [hi, hpipe]
        exact List.mem_cons_of_mem _ hrest
      · exact hold
    · intro i' fd' c hm hc
      have hm : fd' ∈ (Function.update s.phase i (.got fd) i').held := hm
      change s.history c = (Function.update s.phase i (.got fd) i').done
      rw [Function.update_apply] at hm ⊢
      split at hm
      · rw [if_pos ‹_›]
        rw [List.mem_singleton.mp hm] at hc
        exact h.recorded.pipe_history hfd hc
      · rw [if_neg ‹_›]
        exact h.recorded.held_history hm hc

/-! ### The uses of a descriptor in the hand -/

section
variable {i : Fin k} {fd : Int} {use : Use} {phase : Phase}

theorem mem_held (hheld : (s.phase i).held = [fd]) : fd ∈ (s.phase i).held := by
  rw [hheld]
  exact List.mem_singleton.mpr rfl

theorem Inv.history_other (h : s.Inv) {fd' : Int} {c : Nat} (hne : fd' ≠ fd) (hc : s.table fd' = some (.client c)) :
    (s.touch i use fd phase).history c = s.history c := by
  rw [history_touch, if_neg fun hc' => hne (h.placed.unique hc hc')]

theorem Inv.touch_own (h : s.Inv) (hmem : fd ∈ (s.phase i).held) :
    ∀ t ∈ (s.touch i use fd phase).log, ∃ c, t.target = some (.client c) ∧ s.accepted[c]? = some (some t.worker) := by
  intro t ht
  rcases List.mem_append.mp ht with ht | ht
  · exact h.recorded.own t ht
  · rw [List.mem_singleton.mp ht]
    exact h.placed.line_client (line_mem_held hmem)

theorem Inv.touch_new (h : s.Inv) {c : Nat} (hc : s.accepted.length ≤ c) :
    (s.touch i use fd phase).history c = [] := by
  rw [history_touch, if_neg fun hc' => absurd (h.placed.client_lt hc') (Nat.not_lt_of_le hc)]
  exact h.recorded.new_history hc

theorem Inv.not_mem_pipe (h : s.Inv) (hheld : (s.phase i).held = [fd]) (i' : Fin k) : fd ∉ s.pipe i' := by
  intro hm
  have hmem := mem_held hheld
  have hi := h.placed.apart (line_mem_pipe hm) (line_mem_held hmem)
  have hnodup := h.placed.nodup i
  unfold line at hnodup
  rw [hheld] at hnodup
  rw [hi] at hm
  exact (List.nodup_cons.mp hnodup).1 hm

theorem Inv.touch (h : s.Inv) (hheld : (s.phase i).held = [fd]) (hheld' : phase.held = [fd])
    (hdone : phase.done = (s.phase i).done ++ [use]) : (s.touch i use fd phase).Inv := by
  have hmem := mem_held hheld
  have hline : (s.touch i use fd phase).line = s.line := by
    funext i'
    by_cases hi : i' = i
    · subst hi
      simp [line, State.touch, hheld, hheld']
    · simp [line, State.touch, hi]
  refine ⟨?_, h.touch_own hmem, ?_, ?_, ?_, h.touch_new⟩
  · rw [hline]
    exact h.placed
  · intro i' fd' c hm hc
    have hne : fd' ≠ fd := by
      rintro rfl
      exact h.not_mem_pipe hheld i' hm
    rw [h.history_other hne hc]
    exact h.recorded.pipe_history hm hc
  · intro i' fd' c hm hc
    have hm : fd' ∈ (Function.update s.phase i phase i').held := hm
    have hc : s.table fd' = some (.client c) := hc
    change _ = (Function.update s.phase i phase i').done
    rw [Function.update_apply] at hm ⊢
    split at hm
    · rw [if_pos ‹_›, hdone]
      rw [hheld', List.mem_singleton] at hm
      rw [hm] at hc
      rw [history_touch, if_pos hc, h.recorded.held_history hmem hc]
    · rename_i hi
      rw [if_neg hi]
      have hne : fd' ≠ fd := fun he => hi (h.placed.apart (line_mem_held (he ▸ hm)) (line_mem_held hmem))
      rw [h.history_other hne hc]
      exact h.recorded.held_history hm hc
  · intro c hc hclosed
    have hclosed : ∀ fd', s.table fd' ≠ some (.client c) := hclosed
    rw [history_touch, if_neg (hclosed fd)]
    exact h.recorded.closed_history hc hclosed

theorem Inv.close (h : s.Inv) (hphase : s.phase i = .processed fd) :
    ({ s.touch i .close fd .idle with table := Function.update s.table fd none } : State k).Inv := by
  have hheld : (s.phase i).held = [fd] := by
    rw [hphase]
    rfl
  have hmem := mem_held hheld
  have htable : ∀ {fd' c}, Function.update s.table fd none fd' = some (.client c) →
      fd' ≠ fd ∧ s.table fd' = some (.client c) := by
    intro fd' c hc
    rw [Function.update_apply] at hc
    split at hc
    · cases hc
    · exact ⟨‹_›, hc⟩
  have hown : ∀ t ∈ (s.touch i .close fd .idle).log,
      ∃ c, t.target = some (.client c) ∧ s.accepted[c]? = some (some t.worker) := h.touch_own hmem
  have hother : ∀ {fd' c}, fd' ≠ fd → s.table fd' = some (.client c) →
      (s.touch i .close fd .idle).history c = s.history c := h.history_other
  refine ⟨?_, hown, ?_, ?_, ?_, ?_⟩
  · have hline : s.line i = fd :: s.pipe i := by
      unfold line
      rw [hheld]
      rfl
    convert h.placed.pop hline using 1
    · funext i'
      by_cases hi : i' = i
      · subst hi
        simp [line, State.touch, Phase.held]
      · simp [line, State.touch, hi]
    · rfl
  · intro i' fd' c hm hc
    exact (hother (htable hc).1 (htable hc).2).trans (h.recorded.pipe_history hm (htable hc).2)
  · intro i' fd' c hm hc
    have hm : fd' ∈ (Function.update s.phase i .idle i').held := hm
    change _ = (Function.update s.phase i .idle i').done
    rw [Function.update_apply] at hm ⊢
    split at hm
    · exact absurd hm List.not_mem_nil
    · rw [if_neg ‹_›]
      exact (hother (htable hc).1 (htable hc).2).trans (h.recorded.held_history hm (htable hc).2)
  · intro c hc hclosed
    refine (history_touch s i .close fd .idle c).trans ?_
    by_cases hfd : s.table fd = some (.client c)
    · rw [if_pos hfd, h.recorded.held_history hmem hfd, hphase]
      rfl
    · rw [if_neg hfd]
      refine h.recorded.closed_history hc fun fd' hc' => hclosed fd' ?_
      have hne : fd' ≠ fd := fun he => hfd (he ▸ hc')
      exact (Function.update_of_ne hne _ _).trans hc'
  · exact fun hc => (h.touch_new hc : (s.touch i .close fd .idle).history _ = [])

end

theorem Inv.own (h : s.Inv) {fd : Int} (hfd : ∀ c, s.table fd ≠ some (.client c)) {target : Option Target}
    (htarget : ∀ c, target ≠ some (.client c)) : ({ s with table := Function.update s.table fd target } : State k).Inv := by
  have htable : ∀ fd' c, Function.update s.table fd target fd' = some (.client c) ↔ s.table fd' = some (.client c) := by
    intro fd' c
    rw [Function.update_apply]
    split
    · rename_i he
      rw [he]
      exact iff_of_false (htarget c) (hfd c)
    · exact Iff.rfl
  refine ⟨h.placed.congr htable, h.recorded.own, ?_, ?_, ?_, h.recorded.new_history⟩
  · exact fun hm hc => h.recorded.pipe_history hm ((htable _ _).mp hc)
  · exact fun hm hc => h.recorded.held_history hm ((htable _ _).mp hc)
  · exact fun hc hclosed => h.recorded.closed_history hc fun fd' hc' => hclosed fd' ((htable fd' _).mpr hc')

end State

/-! ## Runs -/

/-- Neither the `write` to a pipe nor the `read` from one fails. -/
def Act.Piped : Act k → Prop
  | .accept _ _ written => written = true
  | .readFails _ _ => False
  | _ => True

instance (a : Act k) : Decidable a.Piped := by
  unfold Act.Piped
  cases a <;> exact inferInstance

namespace State

variable {s s' : State k}

theorem Inv.step (h : s.Inv) {a : Act k} (ha : a.Piped) (hstep : s.step a = some s') : s'.Inv := by
  unfold State.step at hstep
  cases a with
  | accept fd i written =>
    have hwritten : written = true := ha
    simp only [hwritten, if_true] at hstep
    split at hstep
    · cases hstep
      exact h.accept ‹_› i
    · cases hstep
  | refuse =>
    cases hstep
    exact h
  | read i =>
    dsimp only at hstep
    split at hstep
    · cases hstep
      exact h.read ‹_› ‹_›
    · cases hstep
  | readFails i garbage => exact absurd ha id
  | recv i ok =>
    dsimp only at hstep
    split at hstep
    · rename_i hphase
      cases hstep
      exact h.touch (by rw [hphase]; rfl) rfl (by rw [hphase]; rfl)
    · cases hstep
  | process i =>
    dsimp only at hstep
    split at hstep
    · rename_i hphase
      cases hstep
      exact h.touch (by rw [hphase]; rfl) rfl (by rw [hphase]; rfl)
    · cases hstep
  | close i =>
    dsimp only at hstep
    split at hstep
    · cases hstep
      exact h.close ‹_›
    · cases hstep
  | openOwn fd =>
    dsimp only at hstep
    split at hstep
    · rename_i hfd
      cases hstep
      exact h.own (fun c hc => by simp [hfd] at hc) fun c => by simp
    · cases hstep
  | closeOwn fd =>
    dsimp only at hstep
    split at hstep
    · rename_i hfd
      cases hstep
      exact h.own (fun c hc => by simp [hfd] at hc) fun c => by simp
    · cases hstep

theorem Inv.run (h : s.Inv) {acts : List (Act k)} (hacts : ∀ a ∈ acts, a.Piped) (hrun : s.run acts = some s') : s'.Inv := by
  induction acts generalizing s with
  | nil =>
    cases hrun
    exact h
  | cons a acts ih =>
    obtain ⟨s1, hstep, hrest⟩ := Option.bind_eq_some_iff.mp hrun
    exact ih (h.step (hacts a List.mem_cons_self) hstep) (fun a ha => hacts a (List.mem_cons_of_mem _ ha)) hrest

end State

open State

/-- In every run in which no `write` to a pipe and no `read` from one fails, each connection is handled once, by the worker
that it was handed to. -/
theorem handled_once (own : Int → Bool) {acts : List (Act k)} {s : State k} (hacts : ∀ a ∈ acts, a.Piped)
    (hrun : (start own).run acts = some s) : s.HandledOnce := ((Inv.start own).run hacts hrun).handledOnce

/-! ### Two workers -/

namespace TwoWorkers

/-- Standard input, output and error, and the socket that listens. -/
def own (fd : Int) : Bool := 0 ≤ fd ∧ fd ≤ 3

def first : Fin 2 := ⟨0, Nat.zero_lt_two⟩
def second : Fin 2 := ⟨1, Nat.one_lt_two⟩

/-- The first number is used again. -/
def served : List (Act 2) :=
  [.accept 7 first true, .accept 8 second true, .read first, .recv first true, .process first, .close first,
    .accept 7 second true, .read second, .recv second false, .process second, .close second]

def lost : List (Act 2) := [.accept 7 first false]

/-- The second `read` of the first worker fails, and the old number is still on its stack. -/
def stolen : List (Act 2) :=
  [.accept 7 first true, .read first, .recv first true, .process first, .close first, .accept 7 second true,
    .readFails first 7, .recv first true, .process first, .close first]

end TwoWorkers

theorem handled_once_served : ∃ s, (start TwoWorkers.own).run TwoWorkers.served = some s ∧ s.HandledOnce := by
  have hpiped : ∀ a ∈ TwoWorkers.served, a.Piped := by decide
  exact ⟨_, rfl, handled_once TwoWorkers.own hpiped rfl⟩

/-- One connection is never closed; another is answered and closed by a worker that it was not handed to. -/
theorem failed_pipe : (∃ s, (start TwoWorkers.own).run TwoWorkers.lost = some s ∧ ¬ s.HandledOnce) ∧
    ∃ s, (start TwoWorkers.own).run TwoWorkers.stolen = some s ∧ ¬ s.HandledOnce := by
  constructor
  · refine ⟨_, rfl, fun h => ?_⟩
    rcases h.close_once 0 (by decide) with ⟨hclose, _⟩ | ⟨_, i, fd, hfd, _⟩
    · exact absurd hclose (by decide)
    · exact absurd hfd List.not_mem_nil
  · refine ⟨_, rfl, fun h => ?_⟩
    obtain ⟨c, hc, hacc⟩ := h.own ⟨TwoWorkers.first, .close, some (.client 1)⟩ (by decide)
    cases hc
    exact absurd hacc (by decide)

end ShortConnection

end NetDisk
