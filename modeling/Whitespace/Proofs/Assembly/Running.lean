import Whitespace.Proofs.Assembly.Resolution
import Whitespace.Proofs.Listing
import Whitespace.Proofs.Machine.Targets

/-!
# Running what was assembled

A text is assembled only if every label that it goes to stands somewhere in it. The program that it
becomes has one instruction for each statement, and its label table leads from the label of a name
to the last statement that marks the name. So the machine always finds the labels it is sent to, and
a jump written with a name leads to the last mark of that name.

## Main statements

* `instructions_of_decode` — the program that an assembled text is decoded to.
* `exists_target` — every jump of the program is written with a name, whose last mark is the place
  that the label table gives.
* `jump_to_last_mark` — no run misses a label, and every jump taken leads to the last mark of the
  name it is written with.
-/

namespace Whitespace

theorem exists_getElem?_of_forall₂ {α β : Type} {R : α → β → Prop} {xs : List α} {ys : List β}
    (h : List.Forall₂ R xs ys) {k : Nat} {y : β} (hy : ys[k]? = some y) :
    ∃ x, xs[k]? = some x ∧ R x y := by
  obtain ⟨hk, rfl⟩ := List.getElem?_eq_some_iff.1 hy
  have hk' : k < xs.length := h.length_eq ▸ hk
  exact ⟨xs[k], List.getElem?_eq_getElem hk', h.get hk' hk⟩

namespace Assembly

variable {text : List Char} {s : String} {split : Bool} {p : Program}

/-- The program that an assembled text is decoded to: its commands, with the names resolved. -/
theorem instructions_of_decode (h : assemble false text = .ok s)
    (hp : decode split (Text.bytes s) = .ok p) :
    ∃ (d : Draft) (cs : List Command),
      List.Forall₂ (fun s c => s.command = .ok c) (parse text).1 cs ∧ d.Collected cs ∧
      (∀ c ∈ cs, c.WellFormed) ∧ d.undefined = [] ∧
      p = .ofInstructions (cs.map (Command.instruction d.label)) := by
  obtain ⟨d, hdraft, hdefined⟩ := draft_of_assemble h
  obtain ⟨cs, hcs⟩ := Draft.forall₂_of_addAll hdraft
  obtain ⟨d', hdraft', hd, hwf⟩ := draft_of_forall₂ hcs
  cases hdraft.symm.trans hdraft'
  refine ⟨d, cs, hcs, hd, hwf, hdefined, ?_⟩
  obtain ⟨log, hsource⟩ := hd.source_eq hwf hdefined
  rw [assemble_eq false hdraft, hsource] at h
  cases h
  rw [Blank.bytes_text] at hp
  exact eq_ofInstructions_of_decode
    (List.forall_mem_map.2 fun c hc => Command.instruction_wellFormed (hwf c hc) d.one_le_label) hp

/-- Only a jump becomes a command that goes to a label. -/
theorem Statement.WellFormed.exists_jump {st : Statement} {c : Command} (hst : st.WellFormed)
    (hc : st.command = .ok c) (hop : c.opcode ∈ [.call, .jump, .jumpZero, .jumpNegative]) :
    ∃ name, st = .jump c.opcode name ∧ c.argument = .name name := by
  obtain ⟨hkind, hmark⟩ := Opcode.mem_jumps_iff.1 hop
  cases st with
  | mark name =>
    cases hc
    exact absurd rfl hmark
  | plain op =>
    cases hc
    cases hkind.symm.trans hst
  | number op negative digits =>
    simp only [Statement.command] at hc
    split at hc <;> cases hc
    cases hkind.symm.trans hst.1
  | character op text =>
    simp only [Statement.command] at hc
    split at hc <;> cases hc
    cases hkind.symm.trans hst
  | jump op name =>
    cases hc
    exact ⟨name, rfl, rfl⟩
  | unknown text => cases hc

/-- Every instruction that goes to a label is written with a name, and the label table leads to the
last mark of that name. -/
theorem exists_target (h : assemble false text = .ok s) (hp : decode split (Text.bytes s) = .ok p)
    {k : Nat} {i : Instruction} (hi : p.instructions[k]? = some i)
    (hop : i.opcode ∈ [.call, .jump, .jumpZero, .jumpNegative]) :
    ∃ name l target, (parse text).1[k]? = some (.jump i.opcode name) ∧ i.operand = some l ∧
      p.labels.get? l = some target ∧ LastIndex (parse text).1 (.mark name) target ∧
      LastIndex p.instructions.toList ⟨.mark, some l⟩ target := by
  obtain ⟨d, cs, hcs, hd, hwf, hdefined, rfl⟩ := instructions_of_decode h hp
  have hstatements := parse_wellFormed text
  -- the statement at the same place, and the name it goes to
  rw [← Array.getElem?_toList, Program.toList_ofInstructions, List.getElem?_map,
    Option.map_eq_some_iff] at hi
  obtain ⟨c, hc, rfl⟩ := hi
  obtain ⟨st, hst, hcommand⟩ := exists_getElem?_of_forall₂ hcs hc
  obtain ⟨name, rfl, hname⟩ :=
    (hstatements st (List.mem_of_getElem? hst)).exists_jump hcommand hop
  -- the last mark of that name, which exists because the name is defined
  have hmem : ⟨.mark, .name name⟩ ∈ cs := by
    by_contra hunmarked
    have hundefined := (hd.mem_undefined name).2 ⟨⟨c, List.mem_of_getElem? hc, hname⟩, hunmarked⟩
    simp [hdefined] at hundefined
  obtain ⟨target, htarget⟩ := LastIndex.exists_of_mem hmem
  have hlast := (hd.lastIndex_mark_iff hwf (d.label name) target).2 ⟨name, rfl, htarget⟩
  refine ⟨name, d.label name, target, hst, ?_, (Program.get?_labels _ _ _).2 hlast, ?_, ?_⟩
  · simp only [Command.instruction, hname]
  · refine (LastIndex.iff_of_forall₂ hcs (fun s hs c hsc => ?_) target).2 htarget
    rw [(hstatements s hs).command_eq_mark_iff hsc, eq_comm]
  · rwa [Program.toList_ofInstructions]

/-- No step of the program reports a label that is not marked. -/
theorem kind_ne_unresolved {m : Machine} (h : assemble false text = .ok s)
    (hp : decode split (Text.bytes s) = .ok m.program) {st st' : State}
    (hrunning : m.running st = true) {f : Fault} {place : Option (Nat × Instruction)}
    (hstep : (m.step st).result = .error (.fault f place) st') : f.kind ≠ "UnresolvedLabel" := by
  intro hkind
  obtain ⟨l, rfl⟩ := Fault.exists_unmarked_of_kind hkind
  obtain ⟨i, hi, hop, hl, hnone⟩ := Machine.step_unmarked hrunning hstep
  obtain ⟨name, l', target, -, hl', htarget, -⟩ := exists_target h hp hi hop
  cases hl.symm.trans hl'
  cases hnone.symm.trans htarget

/-- Running what was assembled. In no state does a step report a label that is not marked, and so no
run ends that way. Every instruction that goes to a label is written with a name in the text, and
when it takes its jump, the program counter comes to the last mark of that name. -/
theorem jump_to_last_mark {m : Machine} (h : assemble false text = .ok s)
    (hp : decode split (Text.bytes s) = .ok m.program) (input : List Char) :
    (∀ st, m.running st = true →
      (∀ f place st', (m.step st).result = .error (.fault f place) st' →
        f.kind ≠ "UnresolvedLabel") ∧
      ∀ i, m.program.instructions[st.pc]? = some i →
        i.opcode ∈ [.call, .jump, .jumpZero, .jumpNegative] →
        ∃ name, (parse text).1[st.pc]? = some (.jump i.opcode name) ∧
          (i.opcode.Taken st.stack →
            ∃ st', LastIndex (parse text).1 (.mark name) st'.pc ∧
              LastIndex m.program.instructions.toList ⟨.mark, i.operand⟩ st'.pc ∧
              ((m.step st).result = .ok () st' ∨
                ∃ e, (m.step st).result = .error (.tooLong e) st'))) ∧
    ∀ fuel r, m.run input fuel = some r →
      ∀ f place, r.ending = .stopped (.fault f place) → f.kind ≠ "UnresolvedLabel" := by
  constructor
  · intro st hrunning
    refine ⟨fun f place st' => kind_ne_unresolved h hp hrunning, fun i hi hop => ?_⟩
    obtain ⟨name, l, target, hname, hl, htarget, htext, hprogram⟩ := exists_target h hp hi hop
    refine ⟨name, hname, fun htaken => ?_⟩
    obtain ⟨st', rfl, hstep⟩ := Machine.step_taken hrunning hi hl htarget htaken
    exact ⟨st', htext, hl ▸ hprogram, hstep⟩
  · intro fuel r hrun f place hending
    obtain ⟨st, -, ⟨-, hend, -⟩ | ⟨-, hend, -⟩ | ⟨reason, hrunning, hend, -, hstep⟩⟩ :=
      Machine.runFrom_cases hrun
    · cases hend.symm.trans hending
    · cases hend.symm.trans hending
    · cases hend.symm.trans hending
      exact kind_ne_unresolved h hp hrunning hstep

/-- The name `f` is marked twice, and the call leads to its second mark. -/
theorem jump_to_last_mark_twice :
    ∃ (s : String) (m : Machine), assemble false "call f end f: f: ret".toList = .ok s ∧
      decode false (Text.bytes s) = .ok m.program ∧
      ∃ st', st'.pc = 3 ∧ ((m.step (Machine.start [])).result = .ok () st' ∨
        ∃ e, (m.step (Machine.start [])).result = .error (.tooLong e) st') := by
  let m : Machine := { program := ⟨#[⟨.call, some 2⟩, ⟨.halt, none⟩, ⟨.mark, some 2⟩,
    ⟨.mark, some 2⟩, ⟨.ret, none⟩], ⟨[(2, 3)]⟩⟩ }
  have hassemble : assemble false "call f end f: f: ret".toList =
      .ok "\n \t \n\n\n\n\n   \n\n   \n\n\t\n" := by decide +kernel
  have hdecode : decode false (Text.bytes "\n \t \n\n\n\n\n   \n\n   \n\n\t\n") =
      .ok m.program := by decide +kernel
  obtain ⟨hstates, -⟩ := jump_to_last_mark hassemble hdecode []
  obtain ⟨-, hjumps⟩ := hstates (Machine.start []) rfl
  obtain ⟨name, -, htaken⟩ := hjumps ⟨.call, some 2⟩ rfl (by decide)
  obtain ⟨st', -, hlast, hstep⟩ := htaken (.call _)
  refine ⟨_, m, hassemble, hdecode, st', ?_, hstep⟩
  -- the last instruction is no mark, the one before it is
  rw [show m.program.instructions.toList = ([⟨.call, some 2⟩, ⟨.halt, none⟩, ⟨.mark, some 2⟩] ++
    [⟨.mark, some 2⟩]) ++ [⟨.ret, none⟩] from rfl, LastIndex.concat_of_ne _ (by decide),
    LastIndex.concat_self] at hlast
  exact hlast

end Assembly

end Whitespace
