import JobTrail.Command
import JobTrail.Proofs.Value.Accepted
import JobTrail.Proofs.Value.Document
import JobTrail.Proofs.Value.RoundTrip

/-!
# Transcoding JSON text

What the command makes of its own output. The value of a text that was accepted is free of instants and has
distinct keys, so the document that is printed is the respelled value itself; and what is printed is accepted
again. The laws of a change of spelling on values are therefore laws of the command on texts.
-/

namespace JobTrail

open Value (Fits)

/-- The texts in which a value is printed: the compact one, and the one that the command writes. -/
def Value.PrintedAs (v : Value) (s : String) : Prop := s = v.print ∨ s = v.printSpread 0 ++ "\n"

namespace Command

variable {v w : Value} {spelling : Spelling} {text printed : String}

/-- What is printed of an accepted value is accepted, and it is the same value. -/
theorem read?_printed (h : v.Fits Json.depthLimit) (hprinted : v.PrintedAs printed) :
    Json.read? printed = some v := by
  have hplain : v.plain = v := Value.plain_of_instantFree v h.instantFree
  cases hprinted with
  | inl hcompact => rw [hcompact, Json.read?_print h.readable, hplain]
  | inr hspread => rw [hspread, Json.read?_printSpread h.readable, hplain]

/-- The printed document is the respelled value. -/
theorem transcodeText_of_read? (hread : Json.read? text = some v) :
    transcodeText spelling text = .ok (v.transcode spelling) := by
  have hfits := Fits.transcode spelling v _ (Json.fits_of_read? hread)
  rw [transcodeText, hread]
  exact congrArg Except.ok (Value.throughDocument_of_instantFree hfits.distinct hfits.instantFree)

theorem transcodeText_ok_iff :
    transcodeText spelling text = .ok w ↔ ∃ v, Json.read? text = some v ∧ v.transcode spelling = w := by
  constructor
  · intro h
    cases hread : Json.read? text with
    | none =>
      rw [transcodeText, hread] at h
      cases h
    | some v =>
      rw [transcodeText_of_read? hread] at h
      exact ⟨v, rfl, Except.ok.inj h⟩
  · intro ⟨v, hread, hw⟩
    rw [transcodeText_of_read? hread, hw]

/-- A result is accepted where it is printed. -/
theorem read?_result (h : transcodeText spelling text = .ok w) (hprinted : w.PrintedAs printed) :
    Json.read? printed = some w := by
  obtain ⟨v, hread, rfl⟩ := transcodeText_ok_iff.mp h
  exact read?_printed (Fits.transcode spelling v _ (Json.fits_of_read? hread)) hprinted

/-- The result of a result is the result. -/
theorem transcodeText_result (h : transcodeText spelling text = .ok w) (hprinted : w.PrintedAs printed) :
    transcodeText spelling printed = .ok w := by
  obtain ⟨v, -, hw⟩ := transcodeText_ok_iff.mp h
  rw [transcodeText_of_read? (read?_result h hprinted), ← hw, Value.transcode_transcode]

theorem output_transcode_ok_iff {s : Surroundings} {json : Bool} :
    output s json (.transcode spelling) = .ok printed ↔
      ∃ text w, String.fromUTF8? s.input = some text ∧ transcodeText spelling text = .ok w ∧
        w.printSpread 0 ++ "\n" = printed := by
  simp only [output, readInput]
  cases String.fromUTF8? s.input with
  | none => simp [bind, Except.bind]
  | some text =>
    cases h : transcodeText spelling text with
    | error e => simp [bind, Except.bind, h]
    | ok w => simp [bind, Except.bind, h, pure, Except.pure]

/-- Run on its own output, the command writes it again. -/
theorem output_again {s : Surroundings} {json : Bool} (h : output s json (.transcode spelling) = .ok printed) :
    output { s with input := printed.toUTF8 } json (.transcode spelling) = .ok printed := by
  obtain ⟨text, w, -, hresult, rfl⟩ := output_transcode_ok_iff.mp h
  exact output_transcode_ok_iff.mpr
    ⟨_, w, Json.fromUTF8?_toUTF8 _, transcodeText_result hresult (.inr rfl), rfl⟩

/-- To storage and back to the wire. -/
theorem transcodeText_back (hread : Json.read? text = some v) (hstable : v.AllKeys Casing.CamelStable) :
    ∃ w, transcodeText .snake text = .ok w ∧
      ∀ printed, w.PrintedAs printed → transcodeText .camel printed = .ok v := by
  have hresult : transcodeText .snake text = .ok (v.transcode .snake) := transcodeText_of_read? hread
  have hfits := Json.fits_of_read? hread
  have hback : v.thereAndBack .camel = v := Value.thereAndBack_of_stable v hfits.distinct hfits.instantFree hstable
  refine ⟨_, hresult, fun printed hprinted => ?_⟩
  rw [transcodeText_of_read? (read?_result hresult hprinted)]
  exact congrArg Except.ok hback

/-- A change of spelling and the way through a JSON document may be done in either order, toward the wire the
way is even idle; and the command gives its own output again, and gives back a text with stable keys. -/
theorem transcoding_through_json :
    (∀ v : Value, v.Distinct →
      v.toCamel.throughDocument = v.toCamel ∧ v.throughDocument.toCamel = v.toCamel ∧
        v.toSnake.throughDocument = v.throughDocument.toSnake) ∧
    (∀ spelling text w, transcodeText spelling text = .ok w →
      ∀ printed, w.PrintedAs printed → transcodeText spelling printed = .ok w) ∧
    (∀ s json spelling printed, output s json (.transcode spelling) = .ok printed →
      output { s with input := printed.toUTF8 } json (.transcode spelling) = .ok printed) ∧
    ∀ text v, Json.read? text = some v → v.AllKeys Casing.CamelStable →
      ∃ w, transcodeText .snake text = .ok w ∧
        ∀ printed, w.PrintedAs printed → transcodeText .camel printed = .ok v := by
  refine ⟨fun v distinct => ⟨?_, ?_, ?_⟩, ?_, ?_, ?_⟩
  · exact v.throughDocument_toCamel
  · exact Value.toCamel_throughDocument distinct
  · exact Value.throughDocument_toSnake distinct
  · exact fun spelling text w h printed hprinted => transcodeText_result h hprinted
  · exact fun s json spelling printed h => output_again h
  · exact fun text v hread hstable => transcodeText_back hread hstable

/-- Two columns with one wire spelling, one of them an instant, and a text with a stable key. -/
theorem transcoding_through_json_note :
    let row := Value.record [("createdAt", .text "today"), ("created_at", .instant ⟨0, 0⟩)]
    let text := "\x7b\"firstName\": [0.5, 1e30]\x7d"
    let s : Surroundings := ⟨fun _ => none, text.toUTF8, 0, []⟩
    row.Distinct ∧ row.throughDocument.toCamel = row.toCamel ∧
      row.toCamel = .record [("createdAt", .text "1970-01-01T00:00:00.000Z")] ∧
    ∃ v w, Json.read? text = some v ∧ transcodeText .snake text = .ok w ∧
      w.print = "\x7b\"first_name\":[0.5,1e+30]\x7d" ∧ transcodeText .snake w.print = .ok w ∧
      transcodeText .camel w.print = .ok v ∧
      output s false (.transcode .snake) = .ok (w.printSpread 0 ++ "\n") ∧
      output { s with input := (w.printSpread 0 ++ "\n").toUTF8 } false (.transcode .snake)
        = .ok (w.printSpread 0 ++ "\n") := by
  intro row text s
  obtain ⟨hvalue, hagain, houtput, hback⟩ := transcoding_through_json
  have distinct : row.Distinct := by
    simp [row, Value.distinct_record_iff, Value.distinct_text, Value.distinct_instant]
  let v := Value.record [("firstName", .sequence [.number (.real ⟨0x3FE0000000000000⟩),
    .number (.real ⟨0x46293E5939A08CEA⟩)])]
  have hread : Json.read? text = some v := by decide +kernel
  have halike : (v.thereAndBack .camel).alike v = true := by decide +kernel
  have hstable : v.AllKeys Casing.CamelStable :=
    (Value.stable_of_alike_thereAndBack v (Json.fits_of_read? hread).distinct halike).2
  obtain ⟨w, hw, hprinted⟩ := hback text v hread hstable
  have hwritten : output s false (.transcode .snake) = .ok (w.printSpread 0 ++ "\n") :=
    output_transcode_ok_iff.mpr ⟨text, w, Json.fromUTF8?_toUTF8 text, hw, rfl⟩
  refine ⟨distinct, (hvalue row distinct).2.1, by decide +kernel, v, w, hread, hw, ?_, ?_, ?_, hwritten, ?_⟩
  · cases hw.symm.trans (transcodeText_of_read? hread)
    decide +kernel
  · exact hagain .snake text w hw w.print (.inl rfl)
  · exact hprinted w.print (.inl rfl)
  · exact houtput s false .snake _ hwritten

end Command
end JobTrail
