import Adjudication.Proofs.Staging.Acquire
import Adjudication.Proofs.Text.Utf8
import Adjudication.Proofs.Verification
import Mathlib.Data.List.TakeWhile

/-!
What analyzer and judge have in sight. The analyzer finds the bytes of the source in its slot, and the judge is told the text
that they decode to. Where the bytes are a text, that is this text, so both have the same source before them; where they are
none, both have the same up to the first invalid part.
-/

namespace Adjudication

open Text
open Text.Utf8 (Bytes encodeChar encodeList decodeLossy)

namespace Files.Tree

variable {t u : Tree} {p : Path} {content : Bytes}

/-- What has been written is read. -/
theorem read_of_write (h : t.write p content = .ok u) : u.read p = .ok content := by
  have hkeeps := keeps_write h
  obtain ⟨place, hreach, hget, rfl⟩ := write_eq_ok h
  exact read_of_file (hkeeps.reach hreach) (get?_put_self (ne_nil_of_get? hget) _ _)

end Files.Tree

namespace Source

/-- A text is taken for a source under every name that passes. -/
theorem ofText_text {given name : String} (h : safeName? given = some name) (code : String) :
    ofText (.text code) given = .ok ⟨Utf8.encode code, name⟩ := by
  simp only [ofText, Text.Wide.encode_text, make, h]
  rfl

/-- What has been taken for a source is its text. -/
theorem text_of_ofText {source : Source} {code given : String} (h : ofText (.text code) given = .ok source) :
    source.text = code := by
  cases hname : safeName? given with
  | none =>
    simp only [ofText, Text.Wide.encode_text, make, hname] at h
    cases h
  | some name =>
    obtain rfl := Except.ok.inj ((ofText_text hname code).symm.trans h)
    exact Utf8.decodeLossy_encode code

variable {source : Source}

/-- The text of a source that is one, and only of such a source, has the content of the source for its bytes. -/
theorem encode_text_iff : Utf8.encode source.text = source.content ↔ source.content.toByteArray.IsValidUTF8 := by
  rw [Utf8.isValidUTF8_iff]
  constructor
  · intro h
    exact ⟨source.text, Utf8.decode?_eq_ok_iff.2 h.symm⟩
  · rintro ⟨text, h⟩
    rw [Source.text, Utf8.decode?_eq_ok_iff.1 h, Utf8.decodeLossy_encode]

/-- What stands in the text of such a source stands in its content. -/
theorem content_of_text (h : source.content.toByteArray.IsValidUTF8) {before after : List Char} {c : Char}
    (hsplit : source.text.toList = before ++ c :: after) :
    source.content = encodeList before ++ encodeChar c ++ encodeList after := by
  rw [← encode_text_iff.2 h, Utf8.encode, hsplit]
  simp [encodeList]

end Source

namespace Staging

variable {σ : Type} {root : Files.Path} {source : Source} {runId : String} {s t : Scene σ} {slot : Slot}

/-- The source is in the slot, with all its bytes. -/
theorem read_of_acquire (h : acquire root source runId s = (.ok slot, t)) :
    t.files.read slot.source = .ok source.content := by
  obtain ⟨files, -, hwrite⟩ := (acquire_eq_ok h).made
  exact Files.Tree.read_of_write hwrite

end Staging

namespace Verifier

open Time (TokenId)

variable {σ : Type} [Time.Seconds σ] {v : Verifier σ} {source : Source} {given : Option TokenId} {runId : Option String}
  {s : Scene σ}

/-- The source is in the slot when the analyzer is launched. -/
theorem Prelude.read_source (p : Prelude v source given runId s) : p.heeded.files.read p.slot.source = .ok source.content := by
  obtain ⟨-, hsame⟩ := Run.heed_eq_ok p.heed_eq
  obtain ⟨name, names, hname⟩ := Staging.runName_run runId (opened source given s).2
  have hstage := p.stage_eq
  rw [stage, Act.bind_of_ok hname] at hstage
  rw [hsame]
  exact Staging.read_of_acquire hstage

/-- Judge and analyzer see the same source. A text is taken for a source, and it is the text of every source that it is taken
for. Bytes that are a text are those that the text of the source is encoded by, just as they are staged, and U+FFFD stands in
it where the staged bytes have it. Whatever the bytes are, a run that comes to judging has the analyzer find them and tells
the judge what they decode to, and a text that they begin with stays as it is, whatever comes after it. -/
theorem source_seen_alike :
    (∀ code : String, ∃ source, Source.ofText (.text code) Source.defaultIdentifier = .ok source ∧ source.text = code) ∧
    (∀ (code given : String) (source : Source), Source.ofText (.text code) given = .ok source → source.text = code) ∧
    (∀ (root : Files.Path) (source : Source) (runId : String) (s t : Scene σ) (slot : Slot),
      Staging.acquire root source runId s = (.ok slot, t) → source.content.toByteArray.IsValidUTF8 →
      t.files.read slot.source = .ok (Utf8.encode source.text) ∧
      ∀ before after, source.text.toList = before ++ '\uFFFD' :: after →
        t.files.read slot.source = .ok (encodeList before ++ [0xEF, 0xBF, 0xBD] ++ encodeList after)) ∧
    (∀ (v : Verifier σ) (source : Source) (given : Option TokenId) (runId : Option String) (s : Scene σ)
      (p : Prelude v source given runId s), ∃ staged, p.heeded.files.read p.slot.source = .ok staged ∧
        p.judged = Judge.judgeAll v.judge v.workers (decodeLossy staged) p.token p.findings p.scene) ∧
    ∀ (seen identifier : String) (bytes : Bytes),
      Source.text ⟨Utf8.encode seen ++ bytes, identifier⟩ = seen ++ Source.text ⟨bytes, identifier⟩ := by
  refine ⟨fun code => ?_, fun code given source => Source.text_of_ofText,
    fun root source runId s t slot hacquire hvalid => ⟨?_, fun before after hsplit => ?_⟩, fun v source given runId s p => ?_,
    fun seen identifier bytes => ?_⟩
  · have hname : Source.safeName? Source.defaultIdentifier = some Source.defaultIdentifier := by decide +kernel
    exact ⟨_, Source.ofText_text hname code, Source.text_of_ofText (Source.ofText_text hname code)⟩
  · rw [Source.encode_text_iff.2 hvalid]
    exact Staging.read_of_acquire hacquire
  · rw [Staging.read_of_acquire hacquire, Source.content_of_text hvalid hsplit]
    rfl
  · exact ⟨source.content, p.read_source, rfl⟩
  · exact Utf8.decodeLossy_encode_append seen bytes

/-! ### A text with a sign of its own -/

/-- The text `a€` with a U+FFFD that it has been given with. -/
def doubted : Source := ⟨[0x61, 0xE2, 0x82, 0xAC, 0xEF, 0xBF, 0xBD], "a.sol"⟩

theorem content_doubted : doubted.content = Utf8.encode "a€\uFFFD" := by decide +kernel

theorem text_doubted : doubted.text = "a€\uFFFD" := by
  rw [Source.text, content_doubted, Utf8.decodeLossy_encode]

/-- The judge is told of it as the analyzer finds it, and a text of two characters is not harmed by an overlong form that
comes after it. -/
theorem source_seen_alike_doubted : (∃ t slot, Staging.acquire Staging.runs doubted "1" Staging.blank = (.ok slot, t) ∧
      doubted.content.toByteArray.IsValidUTF8 ∧ t.files.read slot.source = .ok (Utf8.encode "a€\uFFFD") ∧
      t.files.read slot.source = .ok (encodeList ['a', '€'] ++ [0xEF, 0xBF, 0xBD] ++ encodeList [])) ∧
    (∃ source, Source.ofText (.text "a€") "dir/a.sol" = .ok source ∧ source.text = "a€") ∧
    (∃ staged, scannerPrelude.heeded.files.read scannerPrelude.slot.source = .ok staged) ∧
    Source.text ⟨Utf8.encode "a€" ++ [0xC0, 0x80], "a.sol"⟩ = "a€" ++ Source.text ⟨[0xC0, 0x80], "a.sol"⟩ := by
  obtain ⟨-, hgiven, hstaged, htold, hbegun⟩ := source_seen_alike (σ := Int)
  have hname : Source.safeName? "dir/a.sol" = some "a.sol" := by decide +kernel
  have htaken := Source.ofText_text hname "a€"
  have hvalid : doubted.content.toByteArray.IsValidUTF8 := by
    rw [← Source.encode_text_iff, text_doubted, content_doubted]
  obtain ⟨slot, t, hacquire⟩ : ∃ slot t, Staging.acquire Staging.runs doubted "1" Staging.blank = (.ok slot, t) :=
    Staging.exists_acquired (by decide +kernel)
  refine ⟨?_, ⟨_, htaken, hgiven _ _ _ htaken⟩, ?_, hbegun _ _ _⟩
  · obtain ⟨hread, hsign⟩ := hstaged _ _ _ _ _ _ hacquire hvalid
    refine ⟨t, slot, hacquire, hvalid, text_doubted ▸ hread, hsign _ _ ?_⟩
    rw [text_doubted]
    rfl
  · obtain ⟨staged, hread, -⟩ := htold _ _ _ _ _ scannerPrelude
    exact ⟨staged, hread⟩

end Verifier
end Adjudication
