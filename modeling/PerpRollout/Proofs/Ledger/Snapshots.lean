import PerpRollout.Proofs.Json.RoundTrip
import PerpRollout.Proofs.Ledger.Run
import PerpRollout.Proofs.Record.Normal

/-!
# Snapshots of records

A snapshot is the text of a record with its keys in order, on one line. It is restored
whole (`Ledger.restore_written`), since reading looks neither at the order of the keys nor
at what was left out of the text. Rows are only ever added, so what a run makes of the table
of snapshots (`Store.Kept`) tells which rows a later look-up meets: `Store.run_snapshots`
says that after every run the snapshots of an environment are the records saved for it,
each under the number that saving it told.
-/

namespace PerpRollout

namespace Store

theorem isWritable_of_payload {r : Record} {text : String} (h : payload r = .ok text) :
    r.IsWritable := by
  have hall := Json.all_isWritable_pieces .line 0 r.toJson.sortKeys
  unfold payload at h
  split at h
  next text' heq =>
    have hdone := congrArg Prod.snd heq
    change (Json.pieces .line 0 r.toJson.sortKeys).all Json.Piece.isWritable = true at hdone
    rw [hall] at hdone
    exact Record.isWritable_of_toJson ((Json.isWritable_sortKeys r.toJson).mp hdone)
  · cases h

theorem written_eq {r : Record} (h : r.IsWritable) :
    written r = String.ofList (Json.chars .line 0 r.toJson.sortKeys) := by
  have hreadable := Json.readable_sortKeys (Record.readable_toJson h)
  rw [written, Json.render_of_isWritable .line (Json.isWritable_of_readable hreadable)]

end Store

namespace Ledger

/-- What could be written as a snapshot is restored from it. -/
theorem restore_written {r : Record} (proper : r.IsProper) {text : String}
    (h : Store.payload r = .ok text) (id : Nat) (environment : String) :
    restore ⟨id, environment, Store.written r⟩ = .ok r := by
  have writable := Store.isWritable_of_payload h
  have hreadable := Json.readable_sortKeys (Record.readable_toJson writable)
  have hparse : Json.parse Numeral.digitLimit (Json.chars .line 0 r.toJson.sortKeys ++ []) =
      .ok r.toJson.sortKeys := Json.parse_chars Json.Layout.blank_line hreadable (by simp)
  rw [List.append_nil] at hparse
  unfold restore
  rw [Store.written_eq writable, String.toList_ofList, hparse]
  exact Record.ofJson_sortKeys_toJson proper

/-! ## Looking up a snapshot -/

/-- The snapshot that a look-up finds is the last one that has the number asked for. -/
theorem result_load {t : Tables} {environment : String} {id : Option Int}
    (h : ∀ j ∈ id, isRowNumber j = true) :
    (load ⟨some t⟩ environment id).result =
      match ((t.snapshotsOf environment).filter fun row => id.all (row.id = ·)).getLast? with
      | some row => restore row
      | none => .error (.notFound (.str environment) []) := by
  have hnone : id.filter (!isRowNumber ·) = none := by
    rw [Option.filter_eq_none_iff]
    intro j hj
    simp [h j hj]
  unfold load
  rw [Logged.result_bind, result_reach_eq_ok_iff.mpr rfl, ok_bind, hnone]
  dsimp only
  cases ((t.snapshotsOf environment).filter fun row => id.all (row.id = ·)).getLast? <;> rfl

end Ledger

namespace Store

variable {s : Store} {done : List (Call × Ledger.Answer)} {t : Ledger.Tables}

theorem Kept.eq_of_id (kept : Kept s done t) {row other : SnapshotRow}
    (hrow : row ∈ t.snapshots) (hother : other ∈ t.snapshots) (h : row.id = other.id) :
    row = other := by
  have hnodup : (t.snapshots.map SnapshotRow.id).Nodup := by
    rw [kept.numberedSnapshots]
    exact List.nodup_range'
  exact List.inj_on_of_nodup_map hnodup hrow hother h

theorem Kept.mem_snapshotsOf (kept : Kept s done t) {environment : String} {row : SnapshotRow} :
    row ∈ t.snapshotsOf environment ↔
      ∃ x ∈ done.filterMap (saved? environment), row = ⟨x.1, environment, written x.2⟩ := by
  rw [kept.saved, List.mem_map]
  simp only [eq_comm]

theorem Kept.restored (kept : Kept s done t) {environment : String} {x : Nat × Record}
    (hx : x ∈ done.filterMap (saved? environment)) (built : x.2.Built) :
    Ledger.restore ⟨x.1, environment, written x.2⟩ = .ok x.2 :=
  Ledger.restore_written built.isProper (kept.payloads environment x hx) x.1 environment

/-- A number that was told for an environment finds the record that was saved under it. -/
theorem Kept.load_of_saved (kept : Kept s done t) {environment : String} {x : Nat × Record}
    (hx : x ∈ done.filterMap (saved? environment)) (built : x.2.Built)
    (hid : Ledger.isRowNumber x.1 = true) :
    (Ledger.load ⟨some t⟩ environment (some x.1)).result = .ok x.2 := by
  have hrow : (⟨x.1, environment, written x.2⟩ : SnapshotRow) ∈ t.snapshotsOf environment :=
    kept.mem_snapshotsOf.mpr ⟨x, hx, rfl⟩
  rw [Ledger.result_load (by simpa using hid)]
  cases hlast : ((t.snapshotsOf environment).filter fun row =>
      (some (x.1 : Int)).all (row.id = ·)).getLast? with
  | none =>
      rw [List.getLast?_eq_none_iff, List.filter_eq_nil_iff] at hlast
      exact absurd (by simp) (hlast _ hrow)
  | some row =>
      have hmem := List.mem_filter.mp (List.mem_of_getLast? hlast)
      have hsame : row.id = x.1 := Int.ofNat_inj.mp (by simpa using hmem.2)
      rw [kept.eq_of_id (List.mem_of_mem_filter hmem.1) (List.mem_of_mem_filter hrow) hsame]
      exact kept.restored hx built

/-- A number that was not told for the environment finds nothing. -/
theorem Kept.load_of_not_saved (kept : Kept s done t) {environment : String} {j : Int}
    (hj : Ledger.isRowNumber j = true)
    (h : ∀ x ∈ done.filterMap (saved? environment), (x.1 : Int) ≠ j) :
    (Ledger.load ⟨some t⟩ environment (some j)).result =
      .error (.notFound (.str environment) []) := by
  have hnone : (t.snapshotsOf environment).filter (fun row => (some j).all (row.id = ·)) = [] := by
    rw [List.filter_eq_nil_iff]
    intro row hrow
    obtain ⟨x, hx, rfl⟩ := kept.mem_snapshotsOf.mp hrow
    simpa using h x hx
  rw [Ledger.result_load (by simpa using hj), hnone]
  rfl

theorem Kept.load_latest (kept : Kept s done t) (environment : String) :
    (∀ x, (done.filterMap (saved? environment)).getLast? = some x → x.2.Built →
      (Ledger.load ⟨some t⟩ environment none).result = .ok x.2) ∧
    (done.filterMap (saved? environment) = [] →
      (Ledger.load ⟨some t⟩ environment none).result =
        .error (.notFound (.str environment) [])) := by
  have hload := @Ledger.result_load t environment none (by simp)
  have hall : (t.snapshotsOf environment).filter
      (fun row => (none : Option Int).all (row.id = ·)) = t.snapshotsOf environment :=
    List.filter_eq_self.mpr fun _ _ => rfl
  rw [hall, kept.saved, List.getLast?_map] at hload
  constructor
  · intro x hx built
    rw [hx, Option.map_some] at hload
    exact hload.trans (kept.restored (List.mem_of_getLast? hx) built)
  · intro hnil
    rw [hnil] at hload
    exact hload

/-- The numbers of an environment are listed as they were told, in increasing order. -/
theorem Kept.snapshotIds_eq (kept : Kept s done t) (environment : String) :
    (Ledger.snapshotIds ⟨some t⟩ environment).result =
        .ok ((done.filterMap (saved? environment)).map Prod.fst) ∧
      ((done.filterMap (saved? environment)).map Prod.fst).Pairwise (· < ·) := by
  have hids : (t.snapshotsOf environment).map SnapshotRow.id =
      (done.filterMap (saved? environment)).map Prod.fst := by
    rw [kept.saved, List.map_map]
    rfl
  rw [← hids]
  refine ⟨rfl, ?_⟩
  have hsublist := (List.filter_sublist (p := fun row : SnapshotRow =>
    row.environment = environment) (l := t.snapshots)).map SnapshotRow.id
  rw [kept.numberedSnapshots] at hsublist
  exact List.Pairwise.sublist hsublist List.pairwise_lt_range'

/-- What the snapshots of a ledger are after the accepted calls of a run on a new one. -/
structure Archive (done : List (Call × Ledger.Answer)) (l : Ledger) : Prop where
  /-- The calls that save a snapshot tell the numbers from one on, over all environments. -/
  numbered : (done.filter fun x => x.1.saves).map Prod.snd =
    (List.range' 1 (done.filter fun x => x.1.saves).length).map Ledger.Answer.row
  /-- Under the number that saving it told, a record is found for its environment. -/
  loaded : ∀ environment c answer, (.save environment c, answer) ∈ done → c.Built →
    ∃ id, answer = .row id ∧ (Ledger.isRowNumber id = true →
      (l.load environment (some id)).result = .ok c)
  /-- Without a number the record that was saved last is found. -/
  latest : ∀ environment,
    (∀ x, (done.filterMap (saved? environment)).getLast? = some x → x.2.Built →
      (l.load environment none).result = .ok x.2) ∧
    (done.filterMap (saved? environment) = [] →
      (l.load environment none).result = .error (.notFound (.str environment) []))
  /-- The numbers listed are those told for the environment, in increasing order. -/
  listed : ∀ environment,
    (l.snapshotIds environment).result =
        .ok ((done.filterMap (saved? environment)).map Prod.fst) ∧
      ((done.filterMap (saved? environment)).map Prod.fst).Pairwise (· < ·)
  /-- Under any other number nothing is found. -/
  absent : ∀ environment j, Ledger.isRowNumber j = true →
    (∀ x ∈ done.filterMap (saved? environment), (x.1 : Int) ≠ j) →
    (l.load environment (some j)).result = .error (.notFound (.str environment) [])
  /-- In particular nothing is found under a number of another environment. -/
  foreign : ∀ environment other c (id : Nat), (.save other c, .row id) ∈ done → other ≠ environment →
    Ledger.isRowNumber id = true →
    (l.load environment (some id)).result = .error (.notFound (.str environment) [])

theorem mem_saved_of_mem {environment : String} {c : Record} {id : Nat}
    (h : (.save environment c, .row id) ∈ done) :
    (id, c) ∈ done.filterMap (saved? environment) :=
  List.mem_filterMap.mpr ⟨_, h, by simp [saved?]⟩

theorem Kept.exists_row_of_save (kept : Kept s done t) {environment : String} {c : Record}
    {answer : Ledger.Answer} (h : (.save environment c, answer) ∈ done) :
    ∃ id, answer = .row id := by
  have hmem : answer ∈ (done.filter fun x => x.1.saves).map Prod.snd :=
    List.mem_map.mpr ⟨_, List.mem_filter.mpr ⟨h, rfl⟩, rfl⟩
  rw [kept.numbersSaved] at hmem
  obtain ⟨row, -, rfl⟩ := List.mem_map.mp hmem
  exact ⟨row.id, rfl⟩

theorem Kept.archive (kept : Kept s done t) : Archive done ⟨some t⟩ where
  numbered := by
    have hlength := congrArg List.length kept.numbersSaved
    rw [List.length_map, List.length_map] at hlength
    rw [kept.numbersSaved, hlength, ← kept.numberedSnapshots, List.map_map]
    rfl
  loaded environment c answer h built := by
    obtain ⟨id, rfl⟩ := kept.exists_row_of_save h
    exact ⟨id, rfl, kept.load_of_saved (mem_saved_of_mem h) built⟩
  latest := kept.load_latest
  listed := kept.snapshotIds_eq
  absent environment j hj h := kept.load_of_not_saved hj h
  foreign environment other c id h hne hid := by
    apply kept.load_of_not_saved hid
    intro x hx heq
    have hrow := kept.mem_snapshotsOf.mpr ⟨x, hx, rfl⟩
    have hother := kept.mem_snapshotsOf.mpr ⟨(id, c), mem_saved_of_mem h, rfl⟩
    have hsame := kept.eq_of_id (List.mem_of_mem_filter hother) (List.mem_of_mem_filter hrow)
      (Int.ofNat_inj.mp heq.symm)
    exact hne (congrArg SnapshotRow.environment hsame)

theorem archive_run (s : Store) (calls : List Call) :
    Archive (s.accepted Ledger.fresh calls) (s.run Ledger.fresh calls) := by
  obtain ⟨t, hrun, kept⟩ := kept_run (kept_fresh s) calls
  have hfresh : Ledger.fresh = ⟨some {}⟩ := rfl
  rw [hfresh, hrun]
  exact kept.archive

/-- Take any run on a new ledger, with snapshots saved for any environments in between. Its
snapshots are what the accepted calls saved, and however the run goes on, a record that
can come about is found under the number that saving it told. A call to save that fails
adds no row. -/
theorem run_snapshots (s : Store) (calls : List Call) :
    Archive (s.accepted Ledger.fresh calls) (s.run Ledger.fresh calls) ∧
    (∀ environment c (id : Nat), (.save environment c, .row id) ∈ s.accepted Ledger.fresh calls →
      c.Built → Ledger.isRowNumber id = true → ∀ more,
        ((s.run Ledger.fresh (calls ++ more)).load environment (some id)).result = .ok c) ∧
    ∀ environment r e, s.attempt (s.run Ledger.fresh calls) (.save environment r) = .error e →
      s.after (s.run Ledger.fresh calls) (.save environment r) = s.run Ledger.fresh calls := by
  refine ⟨archive_run s calls, ?_, fun _ _ _ h => after_of_error h⟩
  intro environment c id hsaved built hid more
  have hlater : (.save environment c, .row id) ∈ s.accepted Ledger.fresh (calls ++ more) := by
    rw [accepted_append]
    exact List.mem_append_left _ hsaved
  obtain ⟨id', hanswer, hload⟩ :=
    (archive_run s (calls ++ more)).loaded environment c (.row id) hlater built
  cases hanswer
  exact hload hid

end Store

end PerpRollout
