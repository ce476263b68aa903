import PerpRollout.Proofs.Record.Normal
import PerpRollout.Proofs.Registry.Run
import PerpRollout.Registry.Mapping

/-!
# Registries that can come about

A registry starts empty, or is read from a value, and goes on by calls and by
copying (`Registry.Reachable`). The records offered to it are proper, which every
record is that was read or resolved. What all these steps keep true is `Sound`: the
names are in order and not blank, and the records are proper.
-/

namespace PerpRollout.Registry

/-- The record that a call offers to the registry. -/
def Call.offered? : Call → Option Record
  | .register _ offer => offer.record?
  | .resolve .. => none

/-- A registry that operations on registries and proper records give. -/
inductive Reachable : Registry → Prop
  /-- An empty registry. -/
  | empty (issued : Nat) : Reachable { issued }
  /-- The registry that a value writes down: that of a file, or the bundled one. -/
  | read {raw : Json} {issued : Nat} {r : Registry} (h : (ofJson raw issued).result = .ok r) :
      Reachable r
  /-- The registry after a call that succeeds. -/
  | call {r r' : Registry} {call : Call} (reachable : Reachable r)
      (proper : ∀ c ∈ call.offered?, c.IsProper) (h : r.attempt call = .ok r') : Reachable r'
  /-- A copy of the registry. -/
  | copy {r r' : Registry} (reachable : Reachable r) (h : r.copy.result = .ok r') : Reachable r'

/-- Calls one after the other, successful or not, give a registry that can come about. -/
theorem Reachable.run {r : Registry} (reachable : Reachable r) {calls : List Call}
    (proper : ∀ call ∈ calls, ∀ c ∈ call.offered?, c.IsProper) : Reachable (r.run calls) := by
  induction calls generalizing r with
  | nil => exact reachable
  | cons call calls ih =>
      obtain ⟨hcall, hcalls⟩ := List.forall_mem_cons.mp proper
      rw [run_cons]
      cases h : r.attempt call with
      | ok r' =>
          rw [after_of_ok h]
          exact ih (.call reachable hcall h) hcalls
      | error e =>
          rw [after_of_error h]
          exact ih reachable hcalls

/-- What every step keeps true of a registry. -/
structure Sound (r : Registry) : Prop where
  sorted : r.entries.Pairwise (·.name < ·.name)
  visible : ∀ name ∈ r.names, Text.blank name = false
  proper : ∀ e ∈ r.entries, e.edition.record.IsProper

theorem sound_empty (issued : Nat) : Sound { issued } where
  sorted := .nil
  visible := by simp [names]
  proper := by simp

theorem proper_attempt {r r' : Registry} {call : Call}
    (h : ∀ e ∈ r.entries, e.edition.record.IsProper) (offered : ∀ c ∈ call.offered?, c.IsProper)
    (hcall : r.attempt call = .ok r') : ∀ e ∈ r'.entries, e.edition.record.IsProper := by
  intro x hx
  rcases attempt_cases hcall with ⟨n, offer, edition, issued, rfl, -, -, hoffer, rfl⟩ |
    ⟨n, module, a, e, m, rfl, he, -, ha, rfl⟩
  · rcases mem_insertEntry.mp hx with rfl | hx
    · exact offered edition.record hoffer
    · exact h x hx
  · obtain ⟨y, hy, rfl⟩ := List.mem_map.mp hx
    by_cases hname : y.name = e.name
    · rw [name_resolved, if_pos hname, record_resolved]
      exact Record.isProper_setAddress (h e (mem_of_find? he)) m ha.1
    · rw [name_resolved, if_neg hname]
      exact h y hy

theorem Sound.attempt {r r' : Registry} {call : Call} (sound : Sound r)
    (offered : ∀ c ∈ call.offered?, c.IsProper) (h : r.attempt call = .ok r') : Sound r' where
  sorted := sorted_attempt sound.sorted h
  visible := visible_attempt sound.visible h
  proper := proper_attempt sound.proper offered h

theorem result_registerAll_cons_eq_ok_iff {r r' : Registry} {name : String} {raw : Json}
    {rest : List (String × Json)} :
    (r.registerAll ((name, raw) :: rest)).result = .ok r' ↔
      ∃ c next, Record.ofJson raw = .ok c ∧
        r.attempt (.register (.str name) (.record c)) = .ok next ∧
        (next.registerAll rest).result = .ok r' := by
  rw [Registry.registerAll]
  simp only [Logged.result_bind_eq_ok_iff, result_tag_eq_ok_iff, exists_and_left]
  rfl

theorem Sound.registerAll {r r' : Registry} {records : List (String × Json)} (sound : Sound r)
    (h : (r.registerAll records).result = .ok r') : Sound r' := by
  induction records generalizing r with
  | nil =>
      cases h
      exact sound
  | cons x records ih =>
      obtain ⟨name, raw⟩ := x
      obtain ⟨c, next, hread, hcall, h⟩ := result_registerAll_cons_eq_ok_iff.mp h
      refine ih (sound.attempt ?_ hcall) h
      intro c' hc'
      cases hc'
      exact Record.isProper_of_ofJson hread

theorem Sound.registerEditions {r r' : Registry} {editions : List (String × Edition)}
    (sound : Sound r) (proper : ∀ x ∈ editions, x.2.record.IsProper)
    (h : (r.registerEditions editions).result = .ok r') : Sound r' := by
  induction editions generalizing r with
  | nil =>
      cases h
      exact sound
  | cons x editions ih =>
      obtain ⟨name, e⟩ := x
      obtain ⟨next, hnext, h⟩ := Logged.result_bind_eq_ok_iff.mp h
      have hcall : r.attempt (.register (.str name) (.edition e)) = .ok next := hnext
      refine ih (sound.attempt ?_ hcall) (fun x hx => proper x (List.mem_cons_of_mem _ hx)) h
      intro c hc
      cases hc
      exact proper (name, e) List.mem_cons_self

/-- The editions that a copy is made of are those of the entries. -/
theorem mem_of_result_mapM_get {r : Registry} {names : List String}
    {editions : List (String × Edition)}
    (h : (names.mapM fun name => do return (name, ← r.get (.str name))).result = .ok editions) :
    ∀ x ∈ editions, ∃ e ∈ r.entries, e.edition = x.2 := by
  induction names generalizing editions with
  | nil =>
      cases h
      simp
  | cons name names ih =>
      rw [List.mapM_cons] at h
      obtain ⟨x, hx, h⟩ := Logged.result_bind_eq_ok_iff.mp h
      obtain ⟨rest, hrest, h⟩ := Logged.result_bind_eq_ok_iff.mp h
      cases h
      obtain ⟨edition, hget, hx⟩ := Logged.result_bind_eq_ok_iff.mp hx
      cases hx
      obtain ⟨e, he, hedition⟩ := result_get_eq_ok_iff.mp hget
      obtain ⟨_, _, he⟩ := findJson?_eq_some_iff.mp he
      intro y hy
      rcases List.mem_cons.mp hy with rfl | hy
      · exact ⟨e, mem_of_find? he, hedition⟩
      · exact ih hrest y hy

theorem Sound.copy {r r' : Registry} (sound : Sound r) (h : r.copy.result = .ok r') : Sound r' := by
  obtain ⟨editions, heditions, h⟩ := Logged.result_bind_eq_ok_iff.mp h
  refine (sound_empty r.issued).registerEditions (fun x hx => ?_) h
  obtain ⟨e, he, hx⟩ := mem_of_result_mapM_get heditions x hx
  rw [← hx]
  exact sound.proper e he

/-- Every registry that can come about is sound. -/
theorem sound_of_reachable {r : Registry} (h : Reachable r) : Sound r := by
  induction h with
  | empty issued => exact sound_empty issued
  | read h =>
      obtain ⟨records, -, h⟩ := Logged.result_bind_eq_ok_iff.mp h
      exact (sound_empty _).registerAll h
  | call _ offered h sound => exact sound.attempt offered h
  | copy _ h sound => exact sound.copy h

end PerpRollout.Registry
