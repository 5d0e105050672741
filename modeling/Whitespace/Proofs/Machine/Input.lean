import Whitespace.Proofs.Machine.Extension

/-!
# Reading

A character is read off the front of the input, and a number takes the first line of it. A line ends
behind its line feed, and without one at the end of the input. No action looks at what stands behind
that, so the text that a program has not come to could be any other.

## Main definitions

* `FirstLine` — how a text begins with a line.
* `State.supply` — a state with more text behind its input.
* `Action.Consumes` — an action leaves no more input than there was.
* `Action.Oblivious` — an action does not look at a text that it leaves unread.

## Main statements

* `Machine.readLine_cases` — a line is taken off the input, or the input is left alone.
* `Machine.exec_oblivious` — no instruction looks at a text that it leaves unread.
* `Machine.unread_walk_le` — the input never grows.
* `Machine.walk_of_unread` — unread input does not influence a walk.
-/

namespace Whitespace

/-! ## Lines -/

/-- The first line of a text, and the rest. -/
inductive FirstLine : (text line rest : List Char) → Prop where
  /-- The line ends in the first line feed. -/
  | feed {body : List Char} (h : '\n' ∉ body) (rest : List Char) :
      FirstLine (body ++ '\n' :: rest) (body ++ ['\n']) rest
  /-- There is no line feed, and all of the text is one line. -/
  | last {text : List Char} (h : '\n' ∉ text) (hne : text ≠ []) : FirstLine text text []

theorem FirstLine.length_lt {text line rest : List Char} (h : FirstLine text line rest) :
    rest.length < text.length := by
  cases h with
  | feed => grind
  | last _ hne => exact List.length_pos_iff.2 hne

theorem splitLine?_feed {body : List Char} (h : '\n' ∉ body) (rest : List Char) :
    splitLine? (body ++ '\n' :: rest) = some (body ++ ['\n'], rest) := by
  induction body with
  | nil => rfl
  | cons c body ih =>
    rw [List.mem_cons, not_or] at h
    simp only [List.cons_append, splitLine?, Ne.symm h.1, if_false, ih h.2, Option.map_some]

theorem splitLine?_eq_none {text : List Char} (h : '\n' ∉ text) : splitLine? text = none := by
  induction text with
  | nil => rfl
  | cons c text ih =>
    rw [List.mem_cons, not_or] at h
    simp only [splitLine?, Ne.symm h.1, if_false, ih h.2, Option.map_none]

namespace Machine

open Whitespace.Action

variable {m : Machine} {s : State}

theorem readLine_feed {body rest : List Char} (hbody : '\n' ∉ body)
    (hs : s.unread = body ++ '\n' :: rest) :
    m.readLine s = .ok (body ++ ['\n']) { s with unread := rest } := by
  simp only [readLine, hs, splitLine?_feed hbody]

theorem readLine_last (hm : m.ending = .closed) (hfeed : '\n' ∉ s.unread) (hne : s.unread ≠ []) :
    m.readLine s = .ok s.unread { s with unread := [] } := by
  simp [readLine, splitLine?_eq_none hfeed, hne, hm]

/-- Reading a line takes the first line off the input, or stops and leaves the input alone. -/
theorem readLine_cases (m : Machine) (s : State) :
    (∃ line rest, FirstLine s.unread line rest ∧
      m.readLine s = .ok line { s with unread := rest }) ∨
    ∃ reason, m.readLine s = .error reason s := by
  by_cases hfeed : '\n' ∈ s.unread
  · obtain ⟨body, rest, hs, hbody⟩ := List.eq_append_cons_of_mem hfeed
    refine .inl ⟨_, rest, ?_, readLine_feed hbody hs⟩
    rw [hs]
    exact .feed hbody rest
  · simp only [readLine, splitLine?_eq_none hfeed]
    split
    · next hmore =>
      simp only [Bool.and_eq_true, decide_eq_true_eq] at hmore
      exact .inl ⟨_, [], .last hfeed hmore.1, rfl⟩
    · exact .inr (exhausted_eq_error m _ s)

end Machine

/-! ## The input never grows -/

namespace Action

variable {α β : Type}

/-- The action leaves no more input than there was. -/
def Consumes (a : Action α) : Prop := ∀ s, (after (a s)).unread.length ≤ s.unread.length

theorem Consumes.bind {a : Action α} {g : α → Action β} (ha : Consumes a)
    (hg : ∀ x, Consumes (g x)) : Consumes (a >>= g) := by
  intro s
  have hs := ha s
  rw [bind_apply]
  cases h : a s with
  | ok x s' =>
    rw [h] at hs
    exact Nat.le_trans (hg x s') hs
  | error r s' =>
    rw [h] at hs
    exact hs

theorem Keeps.consumes {a : Action α} (ha : Keeps State.unread a) : Consumes a :=
  fun s => Nat.le_of_eq (congrArg List.length (ha s))

theorem consumes_readCharacter (m : Machine) : Consumes m.readCharacter := by
  intro s
  unfold Machine.readCharacter
  split
  · exact (keeps_exhausted m _).consumes s
  · next c rest hs =>
    rw [hs]
    exact Nat.le_succ _

theorem consumes_readLine (m : Machine) : Consumes m.readLine := by
  intro s
  obtain ⟨line, rest, hline, hs⟩ | ⟨reason, hs⟩ := m.readLine_cases s
  · rw [hs]
    exact Nat.le_of_lt hline.length_lt
  · rw [hs]
    exact Nat.le_refl _

theorem consumes_readNumber (m : Machine) : Consumes m.readNumber := by
  refine (consumes_readLine m).bind fun line => ?_
  split
  · exact (keeps_lift _).consumes
  · exact (keeps_raise _).consumes

end Action

/-! ## Text behind the input -/

/-- The state with more text behind its input. -/
def State.supply (s : State) (text : List Char) : State := { s with unread := s.unread ++ text }

theorem State.extend_of_text (s : State) (text : List Char) :
    s.extend { text } = s.supply text := by
  simp [extend, supply]

namespace Action

variable {α β : Type}

/-- Change the state that an action leaves. -/
def mapState (f : State → State) : EStateM.Result Stop State α → EStateM.Result Stop State α
  | .ok x s => .ok x (f s)
  | .error r s => .error r (f s)

/-- With a text behind the input, the action reads into the text, or its result would be the same
with any other text there. -/
def Oblivious (a : Action α) : Prop :=
  ∀ (s : State) (text : List Char), text ≠ [] →
    (∃ result, ∀ other, a (s.supply other) = mapState (·.supply other) result) ∨
    (after (a (s.supply text))).unread.length < text.length

/-- An action that takes no notice of text behind the input does not look at it. -/
theorem Local.oblivious {a : Action α} (ha : ∀ text, Local { text } a) : Oblivious a := by
  intro s text _
  refine .inl ⟨a s, fun other => ?_⟩
  have hs := ha other s
  rw [State.extend_of_text] at hs
  generalize a s = result at hs
  generalize a (s.supply other) = supplied at hs
  cases hs with
  | ok x s' => rw [State.extend_of_text, mapState]
  | error r s' => rw [State.extend_of_text, mapState]
  | averted s' h => exact absurd h (Extension.not_averts_text other _)

/-- What one action reads into a text, another one does not put back. -/
theorem Oblivious.bind {a : Action α} {g : α → Action β} (ha : Oblivious a)
    (hg : ∀ x, Oblivious (g x)) (hconsumes : ∀ x, Consumes (g x)) : Oblivious (a >>= g) := by
  intro s text htext
  simp only [bind_apply]
  rcases ha s text htext with ⟨result, hresult⟩ | hshort
  · cases result with
    | ok x s' =>
      simp only [hresult, mapState]
      exact hg x s' text htext
    | error r s' => exact .inl ⟨.error r s', fun other => by rw [hresult]; rfl⟩
  · refine .inr ?_
    cases hs : a (s.supply text) with
    | ok x s' =>
      rw [hs] at hshort
      exact Nat.lt_of_le_of_lt (hconsumes x s') hshort
    | error r s' =>
      rw [hs] at hshort
      exact hshort

section Input

variable {m : Machine}

theorem oblivious_readCharacter (m : Machine) : Oblivious m.readCharacter := by
  intro s text htext
  cases hs : s.unread with
  | nil =>
    obtain ⟨c, rest, rfl⟩ := List.exists_cons_of_ne_nil htext
    refine .inr ?_
    simp [Machine.readCharacter, State.supply, hs, after]
  | cons c rest =>
    refine .inl ⟨.ok c { s with unread := rest }, fun other => ?_⟩
    simp only [Machine.readCharacter, State.supply, hs, List.cons_append, mapState]

theorem oblivious_readLine (hm : m.ending = .closed) : Oblivious m.readLine := by
  intro s text htext
  by_cases hfeed : '\n' ∈ s.unread
  · obtain ⟨body, rest, hs, hbody⟩ := List.eq_append_cons_of_mem hfeed
    refine .inl ⟨.ok (body ++ ['\n']) { s with unread := rest }, fun other => ?_⟩
    refine Machine.readLine_feed hbody ?_
    simp [State.supply, hs]
  · -- the line goes on into the text, to the first line feed there or to its end
    refine .inr ?_
    by_cases htextFeed : '\n' ∈ text
    · obtain ⟨body, rest, rfl, hbody⟩ := List.eq_append_cons_of_mem htextFeed
      have hline : '\n' ∉ s.unread ++ body := by simp [hfeed, hbody]
      have hunread : (s.supply (body ++ '\n' :: rest)).unread = s.unread ++ body ++ '\n' :: rest :=
        (List.append_assoc ..).symm
      rw [Machine.readLine_feed hline hunread]
      change rest.length < (body ++ '\n' :: rest).length
      grind
    · rw [Machine.readLine_last hm (by simp [State.supply, hfeed, htextFeed])
        (by simp [State.supply, htext])]
      exact List.length_pos_iff.2 htext

theorem oblivious_readNumber (hm : m.ending = .closed) : Oblivious m.readNumber := by
  refine (oblivious_readLine hm).bind (fun line => Local.oblivious fun text => ?_) fun line => ?_
  · split
    · exact local_lift _
    · exact local_raise _
  · split
    · exact (keeps_lift _).consumes
    · exact (keeps_raise _).consumes

end Input

end Action

/-! ## Instructions -/

section Instructions

open Whitespace.Action

variable {i : Instruction} {V : Item → Prop} {c d : Spent} {m : Machine}

theorem Leads.consumes {α : Type} {Q : α → Prop} {a : Machine → Action α} (h : Leads i V c d Q a) :
    Consumes (a m) := by
  cases h with
  | pop => exact (keeps_pop fun _ _ => rfl).consumes
  | divisor => exact (keeps_divisor fun _ _ => rfl).consumes
  | peek n => exact (keeps_peek n).consumes
  | isNegative => exact (keeps_isNegative _).consumes
  | character => exact (keeps_character _).consumes
  | lift x => exact (keeps_lift x).consumes
  | cell _ address => exact (keeps_cell _ address).consumes
  | readCharacter => exact consumes_readCharacter m
  | readNumber => exact consumes_readNumber m

theorem Ends.consumes {a : Machine → Action Unit} (h : Ends i V c a) : Consumes (a m) :=
  (h.keeps (fun _ _ => rfl) (fun _ _ _ => rfl) (fun _ _ _ => rfl) (fun _ _ _ => rfl) m).consumes

theorem Handles.consumes {a : Machine → Action Unit} (h : Handles i (fun _ => True) c a) :
    Consumes (a m) := by
  induction h with
  | last h => exact h.consumes
  | next h hg ih => exact h.consumes.bind fun x => ih x (h.trivial x)

theorem Leads.oblivious {α : Type} {Q : α → Prop} {a : Machine → Action α}
    (h : Leads i V c d Q a) (hm : m.ending = .closed) : Oblivious (a m) := by
  cases h with
  | pop => exact Local.oblivious fun _ => local_pop
  | divisor => exact Local.oblivious fun _ => local_divisor
  | peek n => exact Local.oblivious fun _ => local_peek n
  | isNegative => exact Local.oblivious fun _ => local_isNegative _
  | character => exact Local.oblivious fun _ => local_character _
  | lift x => exact Local.oblivious fun _ => local_lift x
  | cell _ address => exact Local.oblivious fun _ => local_cell _ address
  | readCharacter => exact oblivious_readCharacter m
  | readNumber => exact oblivious_readNumber hm

theorem Handles.oblivious {a : Machine → Action Unit} (h : Handles i (fun _ => True) c a)
    (hm : m.ending = .closed) : Oblivious (a m) := by
  induction h with
  | last h => exact Local.oblivious fun _ => h.isLocal
  | next h hg ih =>
    exact (h.oblivious hm).bind (fun x => ih x (h.trivial x)) fun x => (hg x (h.trivial x)).consumes

end Instructions

namespace Machine

open Whitespace.Action

variable {m : Machine} {s : State}

/-- No instruction looks at a text that it leaves unread. -/
theorem exec_oblivious (hm : m.ending = .closed) (i : Instruction) : Oblivious (m.exec i) :=
  (exec_handles_any i).oblivious hm

theorem unread_exec_le (m : Machine) (i : Instruction) (s : State) :
    (after (m.exec i s)).unread.length ≤ s.unread.length :=
  (exec_handles_any i).consumes s

/-! ## Steps and walks -/

theorem unread_tick_le (m : Machine) (s : State) :
    (m.tick s).state.unread.length ≤ s.unread.length := by
  cases hrunning : m.running s with
  | false =>
    rw [tick_of_not_running hrunning]
    exact Nat.le_refl _
  | true =>
    have hi := Array.getElem?_eq_getElem (of_decide_eq_true hrunning)
    rw [tick_of_running hrunning, step_result hi, Progress.state_ofResult, after_conclude]
    exact m.unread_exec_le _ { s with pc := s.pc + 1 }

theorem unread_walk_le (m : Machine) (s : State) (k : Nat) :
    (m.walk s k).state.unread.length ≤ s.unread.length := by
  induction k generalizing s with
  | zero => exact Nat.le_refl _
  | succ k ih =>
    have htick := m.unread_tick_le s
    rw [walk]
    cases hs : m.tick s with
    | ended ending s' =>
      rw [hs] at htick
      exact htick
    | going s' =>
      rw [hs] at htick
      exact Nat.le_trans (ih s') htick

/-- A trace does not show the input. -/
theorem conclude_supply (m : Machine) (pc : Nat) (i : Instruction)
    (result : EStateM.Result Stop State Unit) (text : List Char) :
    m.conclude pc i (mapState (·.supply text) result) =
      mapState (·.supply text) (m.conclude pc i result) := by
  cases result with
  | error reason s => rfl
  | ok _ s =>
    have hdump : (s.supply text).dump = s.dump := rfl
    simp only [conclude, mapState]
    split
    · simp only [trace, hdump]
      cases i.text with
      | error long => rfl
      | ok shown => cases s.dump <;> rfl
    · rfl

theorem tick_oblivious (hm : m.ending = .closed) (s : State) {text : List Char}
    (htext : text ≠ []) :
    (∃ p : Progress, ∀ other, m.tick (s.supply other) = p.map (·.supply other)) ∨
    (m.tick (s.supply text)).state.unread.length < text.length := by
  have hsame (other : List Char) : m.running (s.supply other) = m.running s := rfl
  cases hrunning : m.running s with
  | false =>
    refine .inl ⟨.ended .ranOff s, fun other => ?_⟩
    rw [tick_of_not_running ((hsame other).trans hrunning)]
    rfl
  | true =>
    obtain ⟨i, hi⟩ : ∃ i, m.program.instructions[s.pc]? = some i :=
      ⟨_, Array.getElem?_eq_getElem (of_decide_eq_true hrunning)⟩
    have hstep (other : List Char) : m.tick (s.supply other) = .ofResult (m.conclude s.pc i
        (m.exec i (State.supply { s with pc := s.pc + 1 } other))) := by
      rw [tick_of_running ((hsame other).trans hrunning), step_result (s := s.supply other) hi]
      rfl
    rcases exec_oblivious hm i { s with pc := s.pc + 1 } text htext with ⟨result, hresult⟩ | hshort
    · refine .inl ⟨.ofResult (m.conclude s.pc i result), fun other => ?_⟩
      rw [hstep, hresult, conclude_supply]
      cases m.conclude s.pc i result <;> rfl
    · refine .inr ?_
      rw [hstep, Progress.state_ofResult, after_conclude]
      exact hshort

/-- With a text behind the input, a walk reads into the text, or it would go the same way with any
other text there. -/
theorem walk_oblivious (hm : m.ending = .closed) (s : State) (k : Nat) {text : List Char}
    (htext : text ≠ []) :
    (∃ p : Progress, ∀ other, m.walk (s.supply other) k = p.map (·.supply other)) ∨
    (m.walk (s.supply text) k).state.unread.length < text.length := by
  induction k generalizing s with
  | zero => exact .inl ⟨.going s, fun _ => rfl⟩
  | succ k ih =>
    simp only [walk]
    rcases tick_oblivious hm s htext with ⟨p, hp⟩ | hshort
    · cases p with
      | going s' =>
        simp only [hp, Progress.map, Progress.andThen]
        exact ih s'
      | ended ending s' => exact .inl ⟨.ended ending s', fun other => by rw [hp]; rfl⟩
    · refine .inr ?_
      cases hs : m.tick (s.supply text) with
      | ended ending s' =>
        rw [hs] at hshort
        exact hshort
      | going s' =>
        rw [hs] at hshort
        exact Nat.lt_of_le_of_lt (m.unread_walk_le s' k) hshort

/-- Unread input does not influence a walk. If a machine leaves a text unread, after any number of
steps and whether or not the last one failed, then with any other text in its place the machine
comes to the same state and the same end, and leaves that other text unread. -/
theorem walk_of_unread (hm : m.ending = .closed) {text rest : List Char} {k : Nat}
    (hrest : rest ≠ []) (h : (m.walk (start (text ++ rest)) k).state.unread = rest)
    (other : List Char) :
    m.walk (start (text ++ other)) k =
      (m.walk (start (text ++ rest)) k).map fun s => { s with unread := other } := by
  rcases walk_oblivious hm (start text) k hrest with ⟨p, hp⟩ | hshort
  · have hstart (v : List Char) : m.walk (start (text ++ v)) k = p.map (·.supply v) := hp v
    have hnil : p.state.unread = [] := by
      rw [hstart] at h
      cases p <;> simpa [Progress.map, Progress.state, State.supply] using h
    rw [hstart, hstart]
    cases p with
    | going s =>
      have hs : s.unread = [] := hnil
      simp only [Progress.map, State.supply, hs, List.nil_append]
    | ended ending s =>
      have hs : s.unread = [] := hnil
      simp only [Progress.map, State.supply, hs, List.nil_append]
  · change (m.walk (start (text ++ rest)) k).state.unread.length < rest.length at hshort
    rw [h] at hshort
    exact absurd hshort (Nat.lt_irrefl _)

/-- A line and a character are read, and what was to be read next is then missing. -/
theorem walk_of_unread_line :
    ∃ m : Machine, m.ending = .closed ∧
      (m.walk (start ("12\nx".toList ++ ['y'])) 4).state.unread = ['y'] ∧
      m.walk (start ("12\nx".toList ++ [])) 4 =
        .going { pc := 4, heap := ⟨[(.number 0, .number 12), (.number 1, .number 120)]⟩ } := by
  let m : Machine := { program := ⟨#[⟨.push, some 0⟩, ⟨.readNumber, none⟩, ⟨.push, some 1⟩,
    ⟨.readChar, none⟩, ⟨.readChar, none⟩], {}⟩ }
  have hwalk : (m.walk (start ("12\nx".toList ++ ['y'])) 4).state.unread = ['y'] := by
    decide +kernel
  refine ⟨m, rfl, hwalk, ?_⟩
  rw [walk_of_unread rfl (by decide) hwalk []]
  decide +kernel

end Machine

end Whitespace
