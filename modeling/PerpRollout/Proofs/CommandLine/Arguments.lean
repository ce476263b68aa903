import PerpRollout.CommandLine.Invocation
import PerpRollout.Proofs.Record.Slots

/-!
# The values that arguments give

Whatever the order of the arguments, the value of an operand went through its choices
(`Parsed.Chosen`). So the module of a resolution is given by its own name, in none of the
other ways that modules may be spelled elsewhere (`Invocation.module_of_parse`).
-/

namespace PerpRollout.CommandLine

variable {operands : List Operand} {found found' : Parsed}

/-- Each operand that was found is one of those given, with a value that can be chosen. -/
def Parsed.Chosen (operands : List Operand) (p : Parsed) : Prop :=
  ∀ x ∈ p.operands, ∃ o ∈ operands, o.name = x.1 ∧ choose o.choices x.2 = .ok ()

theorem Parsed.Chosen.congr (chosen : found.Chosen operands)
    (h : found'.operands = found.operands) : found'.Chosen operands := by
  intro x hx
  rw [h] at hx
  exact chosen x hx

theorem Parsed.Chosen.append (chosen : found.Chosen operands) {o : Operand} (ho : o ∈ operands)
    {text : String} (h : choose o.choices text = .ok ()) :
    Parsed.Chosen operands { found with operands := found.operands ++ [(o.name, text)] } := by
  intro x hx
  rcases List.mem_append.mp hx with hx | hx
  · exact chosen x hx
  · rw [List.mem_singleton.mp hx]
    exact ⟨o, ho, rfl, h⟩

theorem Parsed.Chosen.of_operand? (chosen : found.Chosen operands) {name text : String}
    (h : found.operand? name = some text) :
    ∃ o ∈ operands, o.name = name ∧ choose o.choices text = .ok () := by
  obtain ⟨before, after, happend, -⟩ := List.lookup_eq_some_iff.mp h
  exact chosen (name, text) (by rw [happend]; simp)

theorem chosen_of_useOperands {os os' : List Operand} {ts ts' : List Token} {texts : List String}
    (hos : ∀ o ∈ os, o ∈ operands) (chosen : found.Chosen operands)
    (h : useOperands os ts texts found = .ok (os', ts', found')) :
    found'.Chosen operands ∧ ∀ o ∈ os', o ∈ operands := by
  induction os generalizing ts texts found with
  | nil =>
      cases h
      exact ⟨chosen, hos⟩
  | cons o os ih =>
      have ho : o ∈ operands := hos o List.mem_cons_self
      have hrest : ∀ o ∈ os, o ∈ operands := fun o' h' => hos o' (List.mem_cons_of_mem o h')
      unfold useOperands at h
      split at h
      case h_1 =>
        split at h
        · cases h
          exact ⟨chosen, hos⟩
        · obtain ⟨_, hchoose, h⟩ := bind_eq_ok_iff.mp h
          exact ih hrest (chosen.append ho hchoose) h
      case h_2 =>
        split at h
        · exact ih hrest chosen h
        · obtain ⟨_, hchoose, h⟩ := bind_eq_ok_iff.mp h
          exact ih hrest (chosen.append ho hchoose) h
      case h_3 =>
        split at h
        · cases h
          exact ⟨chosen, hos⟩
        · obtain ⟨_, -, h⟩ := bind_eq_ok_iff.mp h
          refine ih hrest ?_ h
          exact chosen

theorem operands_of_useOption {options : List Switch} {o : Switch} {attached : Attached}
    {rest rest' : List Token} (h : useOption options o attached rest found = .ok (rest', found')) :
    found'.operands = found.operands := by
  unfold useOption at h
  split at h
  next choices _ =>
    have give {value : String} {tokens : List Token}
        (h : (do choose choices value
                 return (tokens, { found with options := found.options ++ [(o.name, some value)] }))
          = Except.ok (rest', found')) : found'.operands = found.operands := by
      obtain ⟨_, -, h⟩ := bind_eq_ok_iff.mp h
      cases h
      rfl
    split at h
    · exact give h
    · exact give h
    · split at h
      · exact give h
      · cases h
  next =>
    split at h
    · split at h
      · cases h
      · cases h
        rfl
    · cases h
    · cases h

theorem chosen_of_useTokens {usage : Usage} {steps : Nat} {os os' : List Operand}
    {ts : List Token} {texts : List String} (hos : ∀ o ∈ os, o ∈ operands)
    (chosen : found.Chosen operands)
    (h : useTokens usage steps os ts texts found = .ok (os', found')) : found'.Chosen operands := by
  induction steps generalizing os ts texts found with
  | zero =>
      cases h
      exact chosen
  | succ steps ih =>
      unfold useTokens at h
      split at h
      · obtain ⟨⟨_, _, used⟩, hused, h⟩ := bind_eq_ok_iff.mp h
        cases h
        exact (chosen_of_useOperands hos chosen hused).1
      · split at h
        · obtain ⟨⟨_, used⟩, hused, h⟩ := bind_eq_ok_iff.mp h
          exact ih hos (chosen.congr (operands_of_useOption hused)) h
        · refine ih hos ?_ h
          exact chosen
        · obtain ⟨⟨left, _, used⟩, hused, h⟩ := bind_eq_ok_iff.mp h
          obtain ⟨hchosen, hleft⟩ := chosen_of_useOperands hos chosen hused
          simp only at h
          split at h
          · exact ih hleft hchosen h
          · refine ih hleft ?_ h
            exact hchosen

/-- The values of operands were among their choices. -/
theorem chosen_of_parseArguments {usage : Usage} {arguments : List String}
    (h : parseArguments usage arguments = .ok found) : found.Chosen usage.operands := by
  obtain ⟨ts, -, h⟩ := bind_eq_ok_iff.mp h
  obtain ⟨⟨missing, used⟩, hused, h⟩ := bind_eq_ok_iff.mp h
  have hfound : used = found := by
    simp only at h
    split at h
    · cases h
    · cases h
      rfl
  subst hfound
  exact chosen_of_useTokens (fun _ ho => ho) (by simp [Parsed.Chosen]) hused

/-- A module is chosen by its name. -/
theorem exists_module_of_choose {text : String}
    (h : choose (Module.all.map Module.name) text = .ok ()) : ∃ m : Module, text = m.name := by
  unfold choose at h
  split at h
  next hchoice =>
    have hmem : text ∈ Module.all.map Module.name := by
      simpa [Module.all] using hchoice
    obtain ⟨m, -, rfl⟩ := List.mem_map.mp hmem
    exact ⟨m, rfl⟩
  · cases h

theorem choices_of_commandUsage {name : String} {o : Operand}
    (ho : o ∈ (commandUsage name).operands) (hname : o.name = "module") :
    o.choices = Module.all.map Module.name := by
  unfold commandUsage at ho
  split at ho
  · cases ho
  · rw [List.mem_singleton.mp ho] at hname
    simp [environmentOperand] at hname
  · simp only [List.mem_cons, List.not_mem_nil, or_false] at ho
    rcases ho with rfl | rfl | rfl
    · simp at hname
    · rfl
    · simp at hname
  · rw [List.mem_singleton.mp ho] at hname
    simp [environmentOperand] at hname

theorem module_of_ofParsed {defaults : Defaults} {name : String} {p : Parsed}
    {environment module address : String} {record : Bool}
    (h : Command.ofParsed defaults name p = .resolve environment module address record) :
    module = (p.operand? "module").getD "" := by
  unfold Command.ofParsed at h
  simp only at h
  split at h
  case h_6 =>
    cases h
    rfl
  all_goals cases h

/-- A module that a resolution finds was given by its name. -/
theorem Invocation.module_of_parse {defaults : Defaults} {arguments : List String} {i : Invocation}
    (h : parse defaults arguments = .ok i) {environment module address : String} {record : Bool}
    (hcommand : i.command = .resolve environment module address record) {m : Module}
    (hm : Module.parse (.str module) = .ok m) : module = m.name := by
  obtain ⟨program, -, h⟩ := bind_eq_ok_iff.mp h
  obtain ⟨p, hp, h⟩ := bind_eq_ok_iff.mp h
  have hmodule : module = (p.operand? "module").getD "" := by
    split at h
    · cases h
    · cases h
      exact module_of_ofParsed hcommand
  subst hmodule
  cases hfound : p.operand? "module" with
  | none =>
      rw [hfound] at hm
      cases hm
  | some text =>
      obtain ⟨o, ho, hname, hchoose⟩ := (chosen_of_parseArguments hp).of_operand? hfound
      rw [choices_of_commandUsage ho hname] at hchoose
      obtain ⟨m', rfl⟩ := exists_module_of_choose hchoose
      rw [hfound, Option.getD_some, Module.parse_name] at hm
      cases hm
      rfl

end PerpRollout.CommandLine
