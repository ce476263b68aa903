import PerpRollout.Proofs.Files
import PerpRollout.Proofs.Json.RoundTrip
import PerpRollout.Proofs.Registry.Reachable
import PerpRollout.Registry.File

/-!
# A registry file is read back

The text of a registry file is the indented text of one object, whose keys are the
names of the environments. Reading the file goes the way back: the bytes are the
text (`Content.text?_ofText`), the text is the value (`valueOfText_fileText`), no
name makes the value look like a template (`writtenRecords_toJson`), and registering
the records one after the other puts each behind those before it, as names come in
order (`result_registerAll`). `load_of_save` puts these together.
-/

namespace PerpRollout.Registry

/-! ## Registering in order -/

/-- The entries with their records numbered from a number on, and no history. -/
def reissue : Nat → List Entry → List Entry
  | _, [] => []
  | n, e :: rest => ⟨e.name, ⟨e.edition.record, n⟩, []⟩ :: reissue (n + 1) rest

theorem map_name_reissue (n : Nat) (entries : List Entry) :
    (reissue n entries).map Entry.name = entries.map Entry.name := by
  induction entries generalizing n with
  | nil => rfl
  | cons e entries ih => rw [reissue, List.map_cons, List.map_cons, ih]

theorem map_toJson_reissue (n : Nat) (entries : List Entry) :
    (reissue n entries).map (fun e => (e.name, e.edition.record.toJson)) =
      entries.map fun e => (e.name, e.edition.record.toJson) := by
  induction entries generalizing n with
  | nil => rfl
  | cons e entries ih => rw [reissue, List.map_cons, List.map_cons, ih]

/-- An environment keeps its record, and loses its history. -/
theorem find?_reissue {entries : List Entry} {name : String} {e : Entry}
    (h : entries.find? (fun x => x.name = name) = some e) (n : Nat) :
    ∃ serial, (reissue n entries).find? (fun x => x.name = name) =
      some ⟨e.name, ⟨e.edition.record, serial⟩, []⟩ := by
  induction entries generalizing n with
  | nil => cases h
  | cons x entries ih =>
      rw [List.find?_cons] at h
      rw [reissue, List.find?_cons]
      by_cases hname : x.name = name
      · simp only [hname, decide_true, Option.some.injEq] at h
        subst h
        exact ⟨n, by simp [hname]⟩
      · simp only [hname, decide_false] at h ⊢
        exact ih h (n + 1)

theorem insertEntry_of_lt {e : Entry} {entries : List Entry}
    (h : ∀ x ∈ entries, x.name < e.name) : insertEntry e entries = entries ++ [e] := by
  induction entries with
  | nil => rfl
  | cons x entries ih =>
      have hlt : ¬e.name < x.name := String.lt_asymm (h x List.mem_cons_self)
      rw [insertEntry, if_neg hlt, ih fun y hy => h y (List.mem_cons_of_mem x hy)]
      rfl

/-- Written records under names in order are registered one behind the other. -/
theorem result_registerAll {entries : List Entry} (acc : List Entry) (issued : Nat)
    (sorted : ((acc ++ entries).map Entry.name).Pairwise (· < ·))
    (visible : ∀ e ∈ entries, Text.blank e.name = false)
    (proper : ∀ e ∈ entries, e.edition.record.IsProper) :
    (registerAll ⟨acc, issued⟩ (entries.map fun e => (e.name, e.edition.record.toJson))).result =
      .ok ⟨acc ++ reissue issued entries, issued + entries.length⟩ := by
  induction entries generalizing acc issued with
  | nil => simp [registerAll, reissue, Logged.pure]
  | cons e entries ih =>
      have hlt : ∀ x ∈ acc, x.name < e.name := by
        rw [List.map_append, List.pairwise_append] at sorted
        exact fun x hx => sorted.2.2 _ (List.mem_map_of_mem hx) _ (by simp)
      have hfind : find? ⟨acc, issued⟩ e.name = none := by
        rw [find?_eq_none_iff]
        exact fun x hx hname => String.lt_irrefl _ (hname ▸ hlt x hx)
      have hread := Record.ofJson_toJson (proper e List.mem_cons_self)
      have hinsert : insertEntry ⟨e.name, ⟨e.edition.record, issued⟩, []⟩ acc =
          acc ++ [⟨e.name, ⟨e.edition.record, issued⟩, []⟩] := insertEntry_of_lt hlt
      have hregister : (register ⟨acc, issued⟩ (.str e.name) (.record e.edition.record)).result =
          .ok ⟨acc ++ [⟨e.name, ⟨e.edition.record, issued⟩, []⟩], issued + 1⟩ := by
        rw [result_register_eq_ok_iff]
        refine ⟨e.name, ⟨e.edition.record, issued⟩, issued + 1, rfl,
          visible e List.mem_cons_self, hfind, rfl, ?_⟩
        rw [hinsert]
      have hrest := ih (acc ++ [⟨e.name, ⟨e.edition.record, issued⟩, []⟩]) (issued + 1)
        (by simpa using sorted) (fun x hx => visible x (List.mem_cons_of_mem e hx))
        (fun x hx => proper x (List.mem_cons_of_mem e hx))
      rw [List.map_cons, result_registerAll_cons_eq_ok_iff]
      refine ⟨_, _, hread, hregister, hrest.trans ?_⟩
      simp [reissue, Nat.add_assoc, Nat.add_comm 1]

/-! ## The value of a registry -/

/-- Without names that the template form uses, a written registry is one record
for each name. -/
theorem writtenRecords_toJson {r : Registry} (hdefaults : defaultsKey ∉ r.names)
    (henvironments : environmentsKey ∉ r.names) :
    writtenRecords r.toJson =
      .ok (r.entries.map fun e => (e.name, e.edition.record.toJson)) := by
  have hkeys : Json.keys (r.entries.map fun e => (e.name, e.edition.record.toJson)) = r.names := by
    simp [Json.keys, names]
  have hreserved : Text.sortNames (templateKeys.filter r.names.contains) = [] := by
    simp [templateKeys, hdefaults, henvironments, Text.sortNames]
  rw [toJson, writtenRecords]
  simp [isTemplate, hkeys, henvironments, hreserved]

/-- The registry that is read from what a registry writes. -/
def reloaded (r : Registry) (issued : Nat) : Registry :=
  ⟨reissue issued r.entries, issued + r.entries.length⟩

theorem result_ofJson_toJson {r : Registry} (sound : Sound r) (hdefaults : defaultsKey ∉ r.names)
    (henvironments : environmentsKey ∉ r.names) (issued : Nat) :
    (ofJson r.toJson issued).result = .ok (r.reloaded issued) := by
  have hwritten := writtenRecords_toJson hdefaults henvironments
  refine Logged.result_bind_eq_ok_iff.mpr ⟨_, hwritten, ?_⟩
  have hall := result_registerAll [] issued (List.pairwise_map.mpr sound.sorted)
    (fun e he => sound.visible e.name (List.mem_map_of_mem he)) sound.proper
  rw [List.nil_append] at hall
  exact hall

theorem readable_toJson {r : Registry} (sound : Sound r)
    (writable : ∀ e ∈ r.entries, e.edition.record.IsWritable) : r.toJson.Readable := by
  have hkeys : Json.keys (r.entries.map fun e => (e.name, e.edition.record.toJson)) = r.names := by
    simp [Json.keys, names]
  refine ⟨?_, Json.readableMembers_iff.mpr fun m hm => ?_⟩
  · rw [hkeys]
    exact (List.pairwise_map.mpr sound.sorted).imp String.ne_of_lt
  · obtain ⟨e, he, rfl⟩ := List.mem_map.mp hm
    exact Record.readable_toJson (writable e he)

/-! ## The text of a file -/

theorem unifyBreaks_eq_self {cs : List Char} (h : ∀ c ∈ cs, c ≠ '\r') : unifyBreaks cs = cs := by
  induction cs with
  | nil => rfl
  | cons c cs ih =>
      have hc : c ≠ '\r' := h c List.mem_cons_self
      rw [unifyBreaks, ih fun d hd => h d (List.mem_cons_of_mem c hd)]
      · exact fun _ hcs _ => hc hcs
      · exact fun hcs => hc hcs

theorem ne_return_of_prints {c : Char} (h : Json.Layout.indented.Prints c) : c ≠ '\r' := by
  intro hc
  subst hc
  rcases h with h | h | ⟨depth, h⟩
  · cases h
  · cases h
  · rw [Json.Layout.indented, List.mem_cons, List.mem_replicate] at h
    rcases h with h | h
    · cases h
    · cases h.2

/-- A value that was written as indented text is read from the text. -/
theorem valueOfText_render (path : String) {v : Json} (hv : v.Readable) :
    valueOfText path (String.ofList (Json.chars .indented 0 v) ++ "\n") = .ok v := by
  have hcs : (String.ofList (Json.chars .indented 0 v) ++ "\n").toList =
      Json.chars .indented 0 v ++ ['\n'] := by
    simp
  have hplain : ∀ c ∈ Json.chars .indented 0 v ++ ['\n'], c ≠ '\r' := by
    intro c hc
    rcases List.mem_append.mp hc with hc | hc
    · exact ne_return_of_prints (Json.prints_chars hv c hc)
    · rw [List.mem_singleton.mp hc]
      decide
  have hbreak : ∀ c ∈ ['\n'], Json.isGap c = true := List.all_eq_true.mp rfl
  have hparse := Json.parse_chars Json.Layout.blank_indented hv hbreak
  unfold valueOfText
  rw [hcs, unifyBreaks_eq_self hplain]
  simp only [hparse]

theorem fileText_eq {r : Registry} (h : r.toJson.Readable) :
    r.fileText = (String.ofList (Json.chars .indented 0 r.toJson) ++ "\n", true) := by
  rw [fileText, Json.render_of_isWritable .indented (Json.isWritable_of_readable h)]

/-- A file that can be written is written to its end. -/
theorem save_of_write {r : Registry} {text : String} (htext : r.fileText = (text, true))
    {path : Path} (hnull : path.hasNull = false) {files files' : Files Content}
    (h : files.write path (.ofText text) = .ok files') :
    (r.save path files).1.result = .ok () ∧ (r.save path files).2 = files' := by
  obtain ⟨made, names, hmade, htarget, rfl⟩ := Files.write_eq_ok_iff.mp h
  unfold save
  simp [hnull, hmade, htarget, htext]

/-- Saving goes by the text of the registry and its size. -/
theorem save_congr {r r' : Registry} (htext : r'.fileText = r.fileText) (hsize : r'.size = r.size)
    (path : Path) (files : Files Content) : r'.save path files = r.save path files := by
  unfold save countText
  rw [htext, hsize]

theorem valueOfFile_of_write {text : String} {path : Path} (hnull : path.hasNull = false)
    {files files' : Files Content} (h : files.write path (.ofText text) = .ok files') :
    valueOfFile files' path = valueOfText path.text text := by
  simp [valueOfFile, hnull, Files.read_of_write h, Content.text?_ofText]

/-! ## The round trip -/

theorem toJson_reloaded (r : Registry) (issued : Nat) :
    (r.reloaded issued).toJson = r.toJson := by
  rw [toJson, toJson, reloaded, map_toJson_reissue]

theorem names_reloaded (r : Registry) (issued : Nat) : (r.reloaded issued).names = r.names :=
  map_name_reissue issued r.entries

theorem size_reloaded (r : Registry) (issued : Nat) : (r.reloaded issued).size = r.size := by
  have hlength := congrArg List.length (names_reloaded r issued)
  simpa [names, size] using hlength

theorem fileText_reloaded (r : Registry) (issued : Nat) :
    (r.reloaded issued).fileText = r.fileText := by
  rw [fileText, fileText, toJson_reloaded]

theorem save_reloaded (r : Registry) (issued : Nat) (path : Path) (files : Files Content) :
    (r.reloaded issued).save path files = r.save path files :=
  save_congr (fileText_reloaded r issued) (size_reloaded r issued) path files

/-- The reloaded registry tells the same record of an environment, and an empty
history. -/
theorem result_get_reloaded {r : Registry} {name : String} (h : name ∈ r.names) (issued : Nat) :
    ∃ edition edition', (r.get (.str name)).result = .ok edition ∧
      ((r.reloaded issued).get (.str name)).result = .ok edition' ∧
      edition'.record = edition.record ∧
      ((r.reloaded issued).history (.str name)).result = .ok [] := by
  obtain ⟨e, he⟩ := Option.isSome_iff_exists.mp (isSome_find?_iff.mpr h)
  obtain ⟨serial, he'⟩ := find?_reissue he issued
  have hjson := findJson?_eq_some_iff.mpr ⟨name, rfl, he⟩
  have hjson' : (r.reloaded issued).findJson? (.str name) = some _ :=
    findJson?_eq_some_iff.mpr ⟨name, rfl, he'⟩
  exact ⟨e.edition, ⟨e.edition.record, serial⟩, result_get_eq_ok_iff.mpr ⟨e, hjson, rfl⟩,
    result_get_eq_ok_iff.mpr ⟨_, hjson', rfl⟩, rfl, result_history_eq_ok_iff.mpr ⟨_, hjson', rfl⟩⟩

/-- Take a registry that can come about, with no name that the template form uses
and no integer too long to be written. Where a file can be written at all, the
registry is saved to its end, and loading the file gives a registry with the same
names, the same record under each and empty histories; saved in turn, it writes
the same. -/
theorem load_of_save {r : Registry} (reachable : Reachable r) (hdefaults : defaultsKey ∉ r.names)
    (henvironments : environmentsKey ∉ r.names)
    (writable : ∀ e ∈ r.entries, e.edition.record.IsWritable) {path : Path}
    (hnull : path.hasNull = false) {files files' : Files Content}
    (hwrite : files.write path (.ofText r.fileText.1) = .ok files') (issued : Nat) :
    (r.save path files).1.result = .ok () ∧ (r.save path files).2 = files' ∧
    ∃ r', (load files' path issued).result = .ok r' ∧ r'.names = r.names ∧
      (∀ name ∈ r.names, ∃ edition edition',
        (r.get (.str name)).result = .ok edition ∧ (r'.get (.str name)).result = .ok edition' ∧
        edition'.record = edition.record ∧ (r'.history (.str name)).result = .ok []) ∧
      r'.fileText = r.fileText ∧ ∀ path files, r'.save path files = r.save path files := by
  have sound := sound_of_reachable reachable
  have hreadable := readable_toJson sound writable
  have htext := fileText_eq hreadable
  rw [htext] at hwrite
  obtain ⟨hsave, hfiles⟩ := save_of_write htext hnull hwrite
  have hvalue : valueOfFile files' path = .ok r.toJson :=
    (valueOfFile_of_write hnull hwrite).trans (valueOfText_render path.text hreadable)
  have hload : (load files' path issued).result = .ok (r.reloaded issued) := by
    refine Logged.result_bind_eq_ok_iff.mpr ⟨_, hvalue, Logged.result_bind_eq_ok_iff.mpr ?_⟩
    exact ⟨_, result_ofJson_toJson sound hdefaults henvironments issued, rfl⟩
  exact ⟨hsave, hfiles, r.reloaded issued, hload, names_reloaded r issued,
    fun name hname => result_get_reloaded hname issued, fileText_reloaded r issued,
    save_reloaded r issued⟩

/-- A record with texts that need escapes of every kind, and with slots of both
kinds. -/
def escaping : Record where
  priceFeed := { decimals := 6, oracleHub := some "hub" }
  engine := { decimals := 6, initialMarginRatio := "62500", maintenanceMarginRatio := "50000",
              liquidationFee := "0", insuranceFund := none, feePool := some "\"fee\\pool\"",
              eligibleCollateral := none }
  vamm := { decimals := -6, quoteAsset := "\u0001\n", baseAsset := "\u00E9\uFEFF",
            quoteReserve := "1000", baseReserve := "100", fundingPeriod := 3600, tollRatio := "",
            spreadRatio := "0", fluctuationLimitRatio := "0", pricefeed := none }
  assets := [⟨"usd", none, 6⟩, ⟨"eth", some "0x", 18⟩]

/-- A registry with that record under a name above U+FFFF. -/
def escapingRegistry : Registry where
  entries := [⟨"😀", ⟨escaping, 0⟩, []⟩]
  issued := 1

theorem load_of_save_of_escaping :
    Reachable escapingRegistry ∧ ∃ files r',
      (escapingRegistry.save ⟨"", ["registry.json"]⟩ {}).1.result = .ok () ∧
      (escapingRegistry.save ⟨"", ["registry.json"]⟩ {}).2 = files ∧
      (load files ⟨"", ["registry.json"]⟩ 0).result = .ok r' ∧ r'.names = ["😀"] ∧
      r'.fileText = escapingRegistry.fileText := by
  have proper : ∀ value ∈ escaping.values, value.2.IsProper := by decide
  have hvalues : ∀ value ∈ escaping.values, value.2.isWritable = true := by decide
  have writable : ∀ e ∈ escapingRegistry.entries, e.edition.record.IsWritable := by
    intro e he
    rw [List.mem_singleton.mp he]
    exact hvalues
  have hcall : attempt {} (.register (.str "😀") (.record escaping)) = .ok escapingRegistry := rfl
  have reachable : Reachable escapingRegistry := by
    refine .call (.empty 0) (fun c hc => ?_) hcall
    cases hc
    exact proper
  have hnull : Path.hasNull ⟨"", ["registry.json"]⟩ = false := by decide
  have hwrite : Files.write {} ⟨"", ["registry.json"]⟩
      (Content.ofText escapingRegistry.fileText.1) =
        .ok ⟨[(["registry.json"], Content.ofText escapingRegistry.fileText.1)], []⟩ := rfl
  obtain ⟨hsave, hfiles, r', hload, hnames, -, htext, -⟩ :=
    load_of_save reachable (by decide) (by decide) writable hnull hwrite 0
  exact ⟨reachable, _, r', hsave, hfiles, hload, hnames, htext⟩

end PerpRollout.Registry
