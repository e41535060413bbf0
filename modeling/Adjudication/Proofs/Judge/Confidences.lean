import Adjudication.Proofs.Judge.Verdicts
import Adjudication.Proofs.Json.RoundTrip

/-!
The confidence of a judgment. It is a finite number between zero and one, whatever the service answers: an object whose
confidence tells no such number is a malformed response. An answer beyond the limits of JSON is not received, so a confidence
of too many digits is the failure of the judging instead.
-/

namespace Adjudication

open Schema (Tells)

/-! ### Confidences of too many digits -/

namespace Json

open Sign
open Text (codesOfChars)

/-- The text of an object that takes a finding for real, with a confidence of the given digits. -/
def sureText (ds : List Char) : String :=
  "\x7b\"is_real_vulnerability\": true, \"confidence\": " ++ String.ofList ds ++ "\x7d"

/-- The members of such an object up to the confidence, and what follows. -/
def sureRow (tail : List Nat) : List Nat :=
  codesOfChars (encodeString true "is_real_vulnerability") ++ colon :: 0x20 :: (codesOfChars "true".toList ++
    comma :: 0x20 :: (codesOfChars (encodeString true "confidence") ++ colon :: 0x20 :: tail))

theorem codes_sureText (ds : List Char) :
    Text.Wide.codes (sureText ds) = openBrace :: sureRow (codesOfChars ds ++ [closeBrace]) := by
  have hfirst : Text.codesOf "\x7b\"is_real_vulnerability\": true, \"confidence\": " = openBrace :: sureRow [] := by
    decide +kernel
  have hlast : Text.codesOf "\x7d" = [closeBrace] := rfl
  have happend : ∀ s t : String, Text.codesOf (s ++ t) = Text.codesOf s ++ Text.codesOf t := fun s t => by
    simp [Text.codesOf]
  have hsure : Text.Wide.codes (sureText ds) = openBrace :: sureRow [] ++ (codesOfChars ds ++ [closeBrace]) := by
    rw [← hfirst, ← hlast, ← Text.codesOf_ofList, ← happend, ← happend, ← String.append_assoc]
    rfl
  simp only [hsure, sureRow, List.cons_append, List.append_assoc, List.nil_append]

theorem readMembers_sureRow {tail : List Nat} {e : Excess} {levels fuel : Nat}
    (h : readValue levels (fuel + 1) (skipSpace (0x20 :: tail)) = .error (.excess e)) :
    readMembers levels (fuel + 3) (sureRow tail) = .error (.excess e) := by
  have htrue : ∀ rest, readValue levels (fuel + 2) (codesOfChars "true".toList ++ rest) = .ok (.bool true, rest) := by
    intro rest
    rw [readValue_eq_readAtom]
    · rfl
    · simp
  refine (readMembers_of_comma (readString_encodeString _ true "is_real_vulnerability" _) (htrue _)).trans ?_
  exact congrArg (Except.map _) (readMembers_of_excess (readString_encodeString _ true "confidence" _) h)

/-- An object with a confidence of too many digits goes beyond the limits. -/
theorem read_sureText {ds : List Char} (hdigits : ∀ c ∈ ds, c.isDigit = true) (hhead : ds.head? ≠ some '0')
    (hlong : Decimal.digitLimit < ds.length) {levels : Nat} (hlevels : 1 ≤ levels) :
    read levels (sureText ds) = .error (.excess (.digits ds.length)) := by
  obtain ⟨levels, rfl⟩ : ∃ n, levels = n + 1 := ⟨levels - 1, by omega⟩
  have hends : Ends [closeBrace] := ends_cons (.inr (.inr (.inl rfl))) []
  have hskip : skipSpace (0x20 :: (codesOfChars ds ++ [closeBrace])) = codesOfChars ds ++ [closeBrace] := by
    refine skipSpace_of_head (s := codesOfChars ds ++ [closeBrace]) fun code hcode => ?_
    cases ds with
    | nil => simp at hlong
    | cons c ds =>
      obtain rfl := Option.some.inj hcode
      exact not_isSpace_of_isDigit (isDigit_iff_of_char.trans (hdigits c List.mem_cons_self))
  have hrow : ∀ fuel, readMembers levels (fuel + 3) (sureRow (codesOfChars ds ++ [closeBrace])) =
      .error (.excess (.digits ds.length)) := fun fuel =>
    readMembers_sureRow ((congrArg _ hskip).trans (readValue_of_long hdigits hhead hlong levels fuel hends))
  have hread : readCodes (levels + 1) (openBrace :: sureRow (codesOfChars ds ++ [closeBrace])) =
      .error (.excess (.digits ds.length)) := by
    obtain ⟨row, hquoted⟩ : ∃ row, sureRow (codesOfChars ds ++ [closeBrace]) = quotation :: row := ⟨_, rfl⟩
    rw [hquoted] at hrow ⊢
    have hstart : skipSpace (openBrace :: quotation :: row) = openBrace :: quotation :: row := rfl
    have hfuel : 2 * (openBrace :: quotation :: row).length + 2 = 2 * row.length + 2 + 4 := by
      simp only [List.length_cons]
      omega
    have hobject : readValue (levels + 1) (2 * row.length + 2 + 4) (openBrace :: quotation :: row) =
        .error (.excess (.digits ds.length)) := readValue_of_excess (hrow _)
    rw [readCodes, if_neg (by simp), hstart, hfuel, hobject]
  rw [read, readWide, codes_sureText, hread]
  rfl

end Json

/-! ### Confidences that are told -/

namespace Verdict

variable {ms : Json.Members} {confidence : Option Float}

/-- A confidence that members give is a finite number between zero and one. -/
theorem Confides.bounds (h : Confides ms confidence) :
    ∀ x ∈ confidence, 0.0 ≤ x ∧ x ≤ 1.0 ∧ Decimal.isFinite x = true := by
  intro x hx
  cases h with
  | absent => cases hx
  | null => cases hx
  | told _ htells =>
    obtain rfl := Option.some.inj hx
    obtain ⟨hzero, hone⟩ := Schema.bounds_of_probability ((Schema.probability_eq_ok_iff _ _).2 htells)
    exact ⟨hzero, hone, Decimal.isFinite_of_bounds hzero hone⟩

/-- What is given as a confidence is the confidence that it tells. -/
theorem Confides.of_given (h : Confides ms confidence) {d : Json} (hd : ms.get? (.text "confidence") = some d)
    (hnull : d ≠ .null) : ∃ x, Tells d x ∧ confidence = some x := by
  cases h with
  | absent h => simp [hd] at h
  | null h => exact absurd (Option.some.inj (hd.symm.trans h)) hnull
  | told h htells => exact ⟨_, Option.some.inj (h.symm.trans hd) ▸ htells, rfl⟩

end Verdict

namespace Judge

open Time (TokenId)

variable {σ : Type} [Time.Seconds σ] {c : Client σ} {f : Finding} {code : String} {token : Option TokenId} {s : Scene σ}
  {received : Received} {j : Judgment}

theorem receives_of_judge (h : (judge c f code token s).1 = .ok j) : ∃ received, Receives c f code token s received := by
  rw [judge_run] at h
  cases hrun : ((attempts c f code token).run s).1 with
  | ok received => exact ⟨received, hrun⟩
  | error stop =>
    rw [hrun] at h
    cases h

/-- An answer beyond the limits, where answers have led the client to it, is the failure of the judging. -/
theorem Leads.excess {m : Nat} (h : Leads c f code token s m) {e : Json.Excess}
    (hcrash : (s.service.answer (.about c.config f code) m).crash = none)
    (hexceeds : (s.service.answer (.about c.config f code) m).Exceeds c.levels e) :
    (judge c f code token s).1 = .error (.excess e) := by
  obtain ⟨t, hjudge, -⟩ := judge_of_stop h.uncancelled h.allowed h.faulty h.reckons (hexceeds.yield hcrash)
    (Client.next_of_not_fault rfl (m + 1))
  rw [hjudge]
  rfl

/-- The confidence of a judgment is told by the object that it was read from.
* Whatever the service answers, a judgment has no confidence or a finite number between zero and one.
* If an object is received that gives a confidence, a judgment has the number between zero and one that it tells; if it tells
  none, being a number out of bounds or no number, a text that is none, or anything else, the response is malformed.
* Where answers have led the client to an answer that brings an object, that object is received; an answer that goes beyond the
  limits of JSON ends the judging. -/
theorem confidences_told :
    (∀ (c : Client σ) (f : Finding) (code : String) (token : Option TokenId) (s : Scene σ) (j : Judgment),
      (judge c f code token s).1 = .ok j → ∀ x ∈ j.confidence, 0.0 ≤ x ∧ x ≤ 1.0 ∧ Decimal.isFinite x = true) ∧
    (∀ (c : Client σ) (f : Finding) (code : String) (token : Option TokenId) (s : Scene σ) (received : Received),
      Receives c f code token s received → ∀ d, received.members.get? (.text "confidence") = some d → d ≠ .null →
        (∀ j, (judge c f code token s).1 = .ok j → ∃ x, Tells d x ∧ j.confidence = some x) ∧
        ((∀ x, ¬Tells d x) → Malformed c f code token s received)) ∧
    ∀ (c : Client σ) (f : Finding) (code : String) (token : Option TokenId) (s : Scene σ) (m : Nat),
      Leads c f code token s m →
        (∀ content members, (s.service.answer (.about c.config f code) m).Brings c.levels content members →
          Receives c f code token s ⟨m + 1, content, members⟩) ∧
        ∀ e, (s.service.answer (.about c.config f code) m).crash = none →
        (s.service.answer (.about c.config f code) m).Exceeds c.levels e →
          (judge c f code token s).1 = .error (.excess e) := by
  refine ⟨fun c f code token s j h => ?_, fun c f code token s received h d hd hnull => ⟨fun j hj => ?_, fun hnone => ?_⟩,
    fun c f code token s m hleads => ⟨fun content members => hleads.receives, fun e => hleads.excess⟩⟩
  · obtain ⟨received, hreceives⟩ := receives_of_judge h
    exact (hreceives.judge_eq_ok_iff.1 h).1.confidence.bounds
  · exact (h.judge_eq_ok_iff.1 hj).1.confidence.of_given hd hnull
  · refine h.malformed_iff.2 fun b confidence rationale hanswers => ?_
    obtain ⟨x, htells, -⟩ := hanswers.confidence.of_given hd hnull
    exact hnone x htells

/-- An object that takes a finding for real, with a confidence of so many ones. -/
def onesText (n : Nat) : String := Json.sureText (List.replicate n '1')

theorem exceeds_onesText (request : Request) {n : Nat} (h : Decimal.digitLimit < n) :
    ((answering (onesText n)).answer request 0).Exceeds Json.usualLevels (.digits n) := by
  obtain ⟨k, rfl⟩ := Nat.exists_eq_add_of_lt h
  have hdigits : ∀ c ∈ List.replicate (Decimal.digitLimit + k + 1) '1', c.isDigit = true := fun c hc => by
    rw [(List.mem_replicate.1 hc).2]
    rfl
  have hlevels : 1 ≤ Json.usualLevels := by decide
  have hlong := Json.read_sureText hdigits (by simp [List.replicate_succ]) (by rwa [List.length_replicate]) hlevels
  rw [List.length_replicate] at hlong
  exact ⟨.text (onesText _), rfl, hlong⟩

/-- An object whose confidence is a number far above one is no malformed response: the number has too many digits. -/
theorem judge_onesText :
    (judge (.ofAttempts 1 1.0) (.ofCheck "a") "" none (Scene.ofService (answering (onesText 4301)) .nothing)).1 =
      .error (.excess (.digits 4301)) :=
  (leads_first (answering (onesText 4301))).excess rfl (exceeds_onesText _ (by decide))

def firmText : String := "\x7b\"is_real_vulnerability\": true, \"confidence\": true\x7d"

theorem read_firmText : Json.read Json.usualLevels firmText =
    .ok (.obj [(.text "is_real_vulnerability", .bool true), (.text "confidence", .bool true)]) := by cbv

def boldText : String := "\x7b\"is_real_vulnerability\": true, \"confidence\": 2\x7d"

theorem read_boldText : Json.read Json.usualLevels boldText =
    .ok (.obj [(.text "is_real_vulnerability", .bool true), (.text "confidence", .int 2)]) := by cbv

/-- A confidence that is true is one, a confidence of two is malformed, and one of too many digits ends the judging. -/
theorem confidences_told_boldText :
    ((judge (.ofAttempts 1 1.0) (.ofCheck "a") "" none (Scene.ofService (answering firmText) .nothing)).1 =
        .ok ⟨true, some 1.0, .text "", .text firmText⟩ ∧ (0.0 : Float) ≤ 1.0 ∧ (1.0 : Float) ≤ 1.0 ∧
        Decimal.isFinite 1.0 = true) ∧
    Malformed (.ofAttempts 1 1.0) (.ofCheck "a") "" none (Scene.ofService (answering boldText) .nothing)
      ⟨1, .text boldText, [(.text "is_real_vulnerability", .bool true), (.text "confidence", .int 2)]⟩ ∧
    Leads (.ofAttempts 1 1.0) (.ofCheck "a") "" none (Scene.ofService (answering (onesText 4301)) .nothing) 0 ∧
      (judge (.ofAttempts 1 1.0) (.ofCheck "a") "" none (Scene.ofService (answering (onesText 4301)) .nothing)).1 =
        .error (.excess (.digits 4301)) := by
  obtain ⟨hbounds, hgiven, hreached⟩ := confidences_told (σ := Float)
  have hfirm : (judge (.ofAttempts 1 1.0) (.ofCheck "a") "" none (Scene.ofService (answering firmText) .nothing)).1 =
      .ok ⟨true, some 1.0, .text "", .text firmText⟩ := (receives_answering read_firmText).judge_eq_ok_iff.2
    ⟨⟨by simp [Verdict.Untorn, Json.Members.names], ⟨_, rfl, .bool true⟩, .told rfl (.bool true), rfl⟩, rfl⟩
  have hleads := leads_first (answering (onesText 4301))
  have hnull : Json.int 2 ≠ .null := fun h => by cases h
  have hnone (x : Float) : ¬Tells (.int 2) x := fun h => by cases h
  exact ⟨⟨hfirm, hbounds _ _ _ _ _ _ hfirm 1.0 rfl⟩,
    (hgiven _ _ _ _ _ _ (receives_answering read_boldText) (.int 2) rfl hnull).2 hnone,
    hleads, (hreached _ _ _ _ _ _ hleads).2 _ rfl (exceeds_onesText _ (by decide))⟩

end Judge
end Adjudication
