import JobTrail.Proofs.Value.NormalForm
import JobTrail.Proofs.Value.Plain
import JobTrail.Value.Document

/-!
# Values and their documents

A value whose keys are distinct comes back from its document with nothing changed but its instants, which are
texts now. A change of spelling always ends in such a value, so it does not matter whether the spelling is
changed before or after: where two keys fall together, the entry that stays has the same value either way.
-/

namespace JobTrail

namespace Document

/-- Members with names of their own are all written, in their order. -/
theorem ofMembers_of_nodup {members : List (String × Document)} (distinct : (members.map (·.1)).Nodup) :
    ofMembers members = object members := by
  have hwrite : ∀ (written : List (String × Document)) name d, name ∉ written.map (·.1) →
      write written name d = written ++ [(name, d)] := by
    intro written name d h
    induction written with
    | nil => rfl
    | cons m rest ih =>
      obtain ⟨n, old⟩ := m
      rw [List.map_cons, List.mem_cons, not_or] at h
      rw [write, if_neg (Ne.symm h.1), ih h.2, List.cons_append]
  rw [ofMembers, object.injEq]
  induction members using List.reverseRecOn with
  | nil => rfl
  | append_singleton members m ih =>
    obtain ⟨name, d⟩ := m
    rw [List.map_append, List.nodup_append'] at distinct
    obtain ⟨hmembers, -, hdisjoint⟩ := distinct
    rw [List.foldl_append, ih hmembers]
    exact hwrite members name d fun h => hdisjoint h List.mem_cons_self

theorem valuesOfMembers_eq_map (members : List (String × Document)) :
    valuesOfMembers members = members.map fun m => (m.1, m.2.toValue) := by
  induction members with
  | nil => rfl
  | cons m rest ih => rw [valuesOfMembers, ih, List.map_cons]

theorem valuesOfItems_eq_map (items : List Document) : valuesOfItems items = items.map toValue := by
  induction items with
  | nil => rfl
  | cons d rest ih => rw [valuesOfItems, ih, List.map_cons]

end Document

namespace Value

theorem documentsOfEntries_eq_map (entries : List (String × Value)) :
    documentsOfEntries entries = entries.map fun e => (e.1, e.2.toDocument) := by
  induction entries with
  | nil => rfl
  | cons e rest ih => rw [documentsOfEntries, ih, List.map_cons]

theorem documentsOfItems_eq_map (items : List Value) : documentsOfItems items = items.map toDocument := by
  induction items with
  | nil => rfl
  | cons v rest ih => rw [documentsOfItems, ih, List.map_cons]

theorem throughDocument_record {r : Record} (distinct : r.keys.Nodup) :
    (record r).throughDocument = record (r.map fun e => (e.1, e.2.throughDocument)) := by
  have hnames : ((r.map fun e => (e.1, e.2.toDocument)).map (·.1)).Nodup := by
    simpa [Record.keys, Function.comp_def] using distinct
  have hkeys : ((r.map fun e => (e.1, e.2.throughDocument)).map (·.1)).Nodup := by
    simpa [Record.keys, Function.comp_def] using distinct
  rw [throughDocument, toDocument, documentsOfEntries_eq_map, Document.ofMembers_of_nodup hnames, Document.toValue,
    Document.valuesOfMembers_eq_map, List.map_map, record.injEq]
  exact Record.ofList_of_nodup hkeys

theorem throughDocument_sequence (items : List Value) :
    (sequence items).throughDocument = sequence (items.map throughDocument) := by
  rw [throughDocument, toDocument, documentsOfItems_eq_map, Document.toValue, Document.valuesOfItems_eq_map,
    List.map_map, sequence.injEq]
  rfl

/-- On the way through its document a value loses its instants and nothing else. -/
theorem throughDocument_eq_plain (v : Value) : v.Distinct → v.throughDocument = v.plain := by
  induction v using nestedInduction with
  | record r ih =>
    intro h
    obtain ⟨hkeys, hentries⟩ := distinct_record_iff.mp h
    rw [throughDocument_record hkeys, plain_record, record.injEq]
    exact List.map_congr_left fun e he => congrArg (Prod.mk e.1) (ih e he (hentries e he))
  | sequence items ih =>
    intro h
    have hitems := distinct_sequence_iff.mp h
    rw [throughDocument_sequence, plain_sequence, sequence.injEq]
    exact List.map_congr_left fun v hv => ih v hv (hitems v hv)
  | _ => exact fun _ => rfl

theorem print_throughDocument {v : Value} (distinct : v.Distinct) : v.throughDocument.print = v.print := by
  rw [throughDocument_eq_plain v distinct, print_plain]

theorem throughDocument_of_instantFree {v : Value} (distinct : v.Distinct) (h : v.InstantFree) :
    v.throughDocument = v := by
  rw [throughDocument_eq_plain v distinct, plain_of_instantFree v h]

theorem throughDocument_toCamel (v : Value) : v.toCamel.throughDocument = v.toCamel :=
  throughDocument_of_instantFree (normal_transcode .camel v).distinct ((normal_transcode .camel v).instantFree rfl)

theorem toCamel_throughDocument {v : Value} (distinct : v.Distinct) : v.throughDocument.toCamel = v.toCamel := by
  rw [throughDocument_eq_plain v distinct, toCamel_plain]

theorem throughDocument_toSnake {v : Value} (distinct : v.Distinct) :
    v.toSnake.throughDocument = v.throughDocument.toSnake := by
  rw [throughDocument_eq_plain v distinct, toSnake_plain]
  exact throughDocument_eq_plain _ (normal_transcode .snake v).distinct

end Value
end JobTrail
