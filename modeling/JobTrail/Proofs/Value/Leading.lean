import JobTrail.Http.Handler
import JobTrail.Proofs.Value.Accepted
import JobTrail.Proofs.Value.Plain

/-!
# What a body is read as

A body is read up to the end of the value that it starts with, and what was read is as sound as the value of a
whole text: it fits into the limit of nesting, and so does each of its parts. What is written of a part reads back.
-/

namespace JobTrail

namespace Json

variable {scan : Scan} {state : Reading} {cs : List Char} {v : Value}

theorem fits_of_readUntilFinished (h : state.Sound) (hread : readUntilFinished scan state cs = some v) :
    v.Fits depthLimit := by
  induction cs generalizing scan state with
  | nil => cases hread
  | cons c cs ih =>
    rw [readUntilFinished] at hread
    split at hread
    · cases hread
    · rename_i next tokens hscan
      have hsound : ∀ state', tokens.foldlM readToken state = some state' → state'.Sound :=
        fun _ => sound_foldlM h (sound_scanChar hscan)
      split at hread
      · cases hread
      · rename_i w hfinished
        cases hread
        exact hsound _ hfinished
      · rename_i state' _ hstate
        exact ih (hsound _ hstate) hread

theorem fits_of_leadingWord? (h : leadingWord? cs = some v) : v.Fits depthLimit := by
  unfold leadingWord? at h
  split at h
  · cases h
    exact Value.fits_null
  split at h
  · cases h
    exact Value.fits_bool true
  split at h
  · cases h
    exact Value.fits_bool false
  · cases h

/-- A value in front of a text fits into the limit of nesting. -/
theorem fits_of_readLeading? (h : readLeading? cs = some v) : v.Fits depthLimit := by
  unfold readLeading? at h
  split at h
  · cases h
  split at h
  · exact sound_numeralValue? h depthLimit
  split at h
  · exact fits_of_leadingWord? h
  · have hstart : (Reading.value []).Sound := ⟨depthLimit, .nothing⟩
    exact fits_of_readUntilFinished hstart h

theorem fits_of_jsonBody {v : Visit} {body : Value} (h : v.jsonBody = .ok body) : body.Fits depthLimit := by
  unfold Visit.jsonBody at h
  split at h
  · cases h
  split at h
  · cases h
  split at h
  · rename_i data hread
    cases h
    exact fits_of_readLeading? hread
  · cases h

/-- What is written of a value that fits is read as this value again. -/
theorem read?_print_of_fits (h : v.Fits depthLimit) : read? v.print = some v := by
  rw [read?_print h.readable, Value.plain_of_instantFree v h.instantFree]

end Json

namespace Value

variable {room : Nat} {v w : Value} {key : String}

theorem Fits.mono {more : Nat} (h : v.Fits room) (hle : room ≤ more) : v.Fits more :=
  ⟨h.distinct, h.instantFree, h.numbers, h.depth.trans hle⟩

/-- A field fits where its record does. -/
theorem Fits.get? (h : v.Fits (room + 1)) (hget : v.get? key = some w) : w.Fits room := by
  cases v with
  | record r => exact (fits_record_iff.mp h).2 _ (Record.mem_of_get?_eq_some hget)
  | _ => cases hget

end Value
end JobTrail
