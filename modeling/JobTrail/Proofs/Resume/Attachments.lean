import JobTrail.Proofs.Http.Disposition
import JobTrail.Proofs.Text.Bytes
import JobTrail.Resume.Endpoints

/-!
# Files that are downloaded

The header of a download names the file as its row has it, between quotes. Quotes and control characters are left
out of the name, so the header can be sent whatever the name is, and its quotes are those that were put there. A
backslash is not left out: where the name ends in one that is not used up, it takes the last quote for its own.
-/

namespace JobTrail

variable {c : Char}

/-! ## Building a response -/

/-- What the value of a header can hold: every byte but the control characters of ASCII, and a tab. -/
def isFieldByte (b : UInt8) : Bool := b == 9 || 32 ≤ b && b != 127

/-- A response to a request that went well, unless it has a header that cannot be sent. -/
def HttpResponse.build (headers : Headers) (body : ByteArray) : Except String HttpResponse :=
  if headers.all fun h => h.2.toUTF8.data.toList.all isFieldByte then .ok ⟨200, headers, body⟩
  else .error "failed to parse header value"

theorem not_isControl_iff : ¬ isControl c ↔ 0x20 ≤ c.toNat ∧ (c.toNat < 0x7F ∨ 0x9F < c.toNat) := by
  have hspace : (' ').toNat = 0x20 := rfl
  have hlow : ('\x7f').toNat = 0x7F := rfl
  have hhigh : ('\u009f').toNat = 0x9F := rfl
  simp only [isControl, Bool.or_eq_true, Bool.and_eq_true, decide_eq_true_eq, Char.lt_def, Char.le_def,
    UInt32.lt_iff_toNat_lt, UInt32.le_iff_toNat_le, Char.toNat_val, hspace, hlow, hhigh]
  omega

theorem isQuotable_of_not_isControl (h : ¬ isControl c) : isQuotable c := by
  rw [not_isControl_iff] at h
  simp only [isQuotable, Bool.or_eq_true, Bool.and_eq_true, decide_eq_true_eq]
  omega

/-- The bytes of a character beyond ASCII are beyond ASCII. -/
theorem isFieldByte_utf8EncodeChar (h : ¬ isControl c) : ∀ b ∈ String.utf8EncodeChar c, isFieldByte b := by
  rw [not_isControl_iff] at h
  have hvalue : c.val.toNat = c.toNat := rfl
  intro b hb
  simp only [String.utf8EncodeChar, hvalue] at hb
  have hbyte : 0x20 ≤ b.toNat ∧ b.toNat ≠ 0x7F := by
    split_ifs at hb
    all_goals
      simp only [List.mem_cons, List.not_mem_nil, or_false, ← UInt8.toNat_inj, UInt8.toNat_ofNat'] at hb
      omega
  have hne : b ≠ 127 := fun he => hbyte.2 (congrArg UInt8.toNat he)
  simp only [isFieldByte, Bool.or_eq_true, Bool.and_eq_true, decide_eq_true_eq, bne_iff_ne, UInt8.le_iff_toNat_le]
  exact .inr ⟨hbyte.1, hne⟩

theorem isFieldByte_toUTF8 {s : String} (h : ∀ c ∈ s.toList, ¬ isControl c) :
    s.toUTF8.data.toList.all isFieldByte := by
  rw [toUTF8_toList, List.all_eq_true]
  intro b hb
  obtain ⟨c, hc, hb⟩ := List.mem_flatMap.mp hb
  exact isFieldByte_utf8EncodeChar (h c hc) b hb

namespace Resume

open Disposition (trailingBackslashes)

variable {fileName : String}

/-! ## The name -/

theorem mem_headerName_iff : c ∈ (headerName fileName).toList ↔ c ∈ fileName.toList ∧ c ≠ '"' ∧ ¬ isControl c := by
  rw [headerName, String.toList_ofList, List.mem_filter, decide_eq_true_eq]

theorem toList_contentDisposition (fileName : String) : (contentDisposition fileName).toList
    = "attachment; filename=\"".toList ++ (headerName fileName).toList ++ ['"'] := by
  have hquote : "\"".toList = ['"'] := rfl
  unfold contentDisposition
  simp only [String.toList_append, hquote]

theorem not_isControl_contentDisposition : ∀ c ∈ (contentDisposition fileName).toList, ¬ isControl c := by
  have hfront : ("attachment; filename=\"".toList).all (!isControl ·) := by decide +kernel
  rw [toList_contentDisposition]
  refine List.forall_mem_append.mpr ⟨List.forall_mem_append.mpr ⟨?_, ?_⟩, ?_⟩
  · simpa using hfront
  · exact fun c hc => (mem_headerName_iff.mp hc).2.2
  · simp [isControl]

theorem isQuotable_headerName : ∀ c ∈ (headerName fileName).toList, isQuotable c ∧ c ≠ '"' := by
  intro c hc
  obtain ⟨-, hquote, hcontrol⟩ := mem_headerName_iff.mp hc
  exact ⟨isQuotable_of_not_isControl hcontrol, hquote⟩

/-! ## The header -/

/-- Between the quotes of the file name. -/
def inName (content : List Char) : Disposition.Reading :=
  .quoted ⟨"attachment".toList, []⟩ "filename".toList content

/-- A header's value that is read as a download with a file name and nothing else, where the name is the text in
quotes that starts behind its sign and closes at the last character. -/
structure IsAttachment (value : String) : Prop where
  parts : ∃ spelled content, value.toList = "attachment; filename=\"".toList ++ spelled ++ ['"']
    ∧ Disposition.run (inName []) spelled = some (inName content)
    ∧ Disposition.read? value = some ⟨"attachment".toList, [("filename".toList, .quoted content)]⟩

theorem run_start : Disposition.run (.kind []) "attachment; filename=\"".toList = some (inName []) := by
  decide +kernel

theorem isFieldByte_attachment (d : Download) :
    ∀ h ∈ (attachment d).headers, h.2.toUTF8.data.toList.all isFieldByte := by
  have hpdf : ("application/pdf".toList).all (!isControl ·) := by decide +kernel
  refine List.forall_mem_cons.mpr ⟨isFieldByte_toUTF8 (by simpa using hpdf), ?_⟩
  exact List.forall_mem_singleton.mpr (isFieldByte_toUTF8 not_isControl_contentDisposition)

/-- The reader is inside of the name up to the last quote, which closes it if no backslash is left open. -/
theorem isAttachment_contentDisposition_iff (fileName : String) :
    IsAttachment (contentDisposition fileName) ↔ Even (trailingBackslashes (headerName fileName).toList) := by
  obtain ⟨content, hrun⟩ : ∃ content, Disposition.run (inName []) (headerName fileName).toList = some
      (Disposition.inside ⟨"attachment".toList, []⟩ "filename".toList content
        (trailingBackslashes (headerName fileName).toList % 2 = 1)) :=
    Disposition.run_inside isQuotable_headerName
  have hread : Disposition.read? (contentDisposition fileName) = (Disposition.run (Disposition.inside
      ⟨"attachment".toList, []⟩ "filename".toList content
        (trailingBackslashes (headerName fileName).toList % 2 = 1)) ['"']).bind Disposition.Reading.finish := by
    rw [Disposition.read?, toList_contentDisposition, Disposition.run_append, Disposition.run_append, run_start,
      Option.bind_some, hrun, Option.bind_some]
  rcases Nat.mod_two_eq_zero_or_one (trailingBackslashes (headerName fileName).toList) with hmod | hmod
  · rw [hmod] at hrun hread
    refine iff_of_true ⟨_, content, toList_contentDisposition fileName, hrun, hread⟩ (Nat.even_iff.mpr hmod)
  · rw [hmod] at hread
    refine iff_of_false ?_ (Nat.not_even_iff.mpr hmod)
    rintro ⟨spelled, content', -, -, hattachment⟩
    rw [hread] at hattachment
    cases hattachment

/--
The response of a download is always built, its header holds no control characters, and the header is well formed
exactly if the name that is put into it does not end in an odd number of backslashes.
-/
theorem attachment_wellFormed_iff (d : Download) :
    HttpResponse.build (attachment d).headers d.bytes = .ok (attachment d)
    ∧ (attachment d).headers.get? "content-disposition" = some (contentDisposition d.fileName)
    ∧ (∀ c ∈ (contentDisposition d.fileName).toList, ¬ isControl c)
    ∧ (IsAttachment (contentDisposition d.fileName) ↔ Even (trailingBackslashes (headerName d.fileName).toList)) := by
  refine ⟨if_pos (List.all_eq_true.mpr (isFieldByte_attachment d)), ?_, not_isControl_contentDisposition,
    isAttachment_contentDisposition_iff d.fileName⟩
  have hother : lowercase "content-type" ≠ lowercase "content-disposition" := by decide +kernel
  simp [Headers.get?, attachment, List.find?, hother]

/-- A file name that a client registers, and that ends in a backslash, takes the last quote away. -/
theorem not_every_attachment_wellFormed :
    ¬ ∀ body draft, draftForm.run body = .ok (some draft) → IsAttachment (contentDisposition draft.fileName) := by
  intro h
  have hform : draftForm.run (.record [("name", .text "CV"), ("fileName", .text "cv\\"),
      ("fileUri", .text "/uploads/cv.pdf")]) = .ok (some ⟨"CV", "cv\\", "/uploads/cv.pdf", false⟩) := by
    cbv
  have hattachment := h _ _ hform
  rw [isAttachment_contentDisposition_iff] at hattachment
  exact absurd hattachment (by decide +kernel)

end Resume
end JobTrail
