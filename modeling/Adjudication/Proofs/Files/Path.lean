import Adjudication.Files.Path
import Adjudication.Source

/-!
Names of files and the paths that they make. A name without a slash that is neither empty nor a dot is a path of one
component; so is the name that a source goes by. A path has just the characters of its components, apart from slashes and
dots.
-/

namespace Adjudication.Files.Path

theorem splitSlashes_of_not_mem : ∀ {s : List Char}, '/' ∉ s → splitSlashes s = [s]
  | [], _ => rfl
  | c :: rest, h => by
    have hc : c ≠ '/' := fun he => h (he ▸ .head _)
    rw [splitSlashes, if_neg hc, splitSlashes_of_not_mem fun hm => h (.tail _ hm)]

/-- A text that can name a component is a path of that component. -/
theorem ofText_of_isPart {name : String} (hne : name.toList ≠ []) (hdot : name.toList ≠ ['.']) (hslash : '/' ∉ name.toList) :
    ofText name = ⟨.none, [name]⟩ := by
  have hstart : name.toList.takeWhile (· = '/') = [] := by
    cases hs : name.toList with
    | nil => rfl
    | cons c rest =>
      have hc : c ≠ '/' := fun he => hslash (hs ▸ he ▸ .head _)
      simp [hc]
  simp [ofText, ofChars, hstart, splitSlashes_of_not_mem hslash, isPart, hne, hdot]

theorem mem_intercalate {c : Char} {sep : List Char} (hc : c ∉ sep) : ∀ {l : List (List Char)},
    c ∈ sep.intercalate l ↔ ∃ part ∈ l, c ∈ part
  | [] => by simp [List.intercalate]
  | [part] => by simp [List.intercalate]
  | part :: next :: rest => by
    have htail := mem_intercalate (l := next :: rest) hc
    simp only [List.intercalate, List.intersperse_cons_cons, List.flatten_cons, List.mem_append] at htail ⊢
    rw [htail]
    simp [hc]

/-- A character that is neither a slash nor a dot is in a path if it is in one of its components. -/
theorem mem_text {c : Char} (hslash : c ≠ '/') (hdot : c ≠ '.') (p : Path) :
    c ∈ p.text.toList ↔ ∃ part ∈ p.parts, c ∈ part.toList := by
  have hanchor : c ∉ (anchorText p.anchor).toList := by
    cases p.anchor <;> simp [anchorText, hslash]
  rw [text]
  split
  next hempty => simp [hempty.2, hdot]
  next =>
    have hsep : c ∉ "/".toList := by simpa using hslash
    rw [String.toList_append, List.mem_append, String.toList_intercalate, mem_intercalate hsep]
    constructor
    · rintro (h | ⟨chars, hchars, hc⟩)
      · exact absurd h hanchor
      · obtain ⟨part, hpart, rfl⟩ := List.mem_map.1 hchars
        exact ⟨part, hpart, hc⟩
    · rintro ⟨part, hpart, hc⟩
      exact .inr ⟨_, List.mem_map_of_mem hpart, hc⟩

theorem mem_parts_ofChars {s : List Char} {part : String} (h : part ∈ (ofChars s).parts) :
    part.toList ≠ [] ∧ part.toList ≠ ['.'] ∧ '/' ∉ part.toList := by
  have hs : ofChars s = ofText (String.ofList s) := by rw [ofText, String.toList_ofList]
  exact mem_parts_ofText (hs ▸ h)

/-- The name of a source names one component, which leads nowhere upwards. -/
theorem ofText_of_safeName {s name : String} (h : Source.safeName? s = some name) :
    ofText name = ⟨.none, [name]⟩ ∧ name ≠ ".." := by
  rw [Source.safeName?] at h
  split at h
  · simp at h
  next hbad =>
    obtain rfl := Option.some.inj h
    generalize s.toList.map _ = chars at hbad ⊢
    obtain ⟨hempty, -, hup⟩ := by simpa only [not_or] using hbad
    have hpart : (ofChars chars).name ∈ (ofChars chars).parts := by
      rw [Path.name] at hempty ⊢
      cases hlast : (ofChars chars).parts.getLast? with
      | none => simp [hlast] at hempty
      | some last => exact List.mem_of_getLast? hlast
    obtain ⟨hne, hdot, hslash⟩ := mem_parts_ofChars hpart
    exact ⟨ofText_of_isPart hne hdot hslash, hup⟩

theorem ofText_of_make {content : Text.Utf8.Bytes} {given : String} {source : Source}
    (h : Source.make content given = .ok source) : ofText source.identifier = ⟨.none, [source.identifier]⟩ ∧
      source.identifier ≠ ".." := by
  rw [Source.make] at h
  split at h
  next name hname =>
    obtain rfl := Except.ok.inj h
    exact ofText_of_safeName hname
  next => simp at h

/-- A name that can name a component, and has no backslash, is kept as it is. -/
theorem make_of_isPart (content : Text.Utf8.Bytes) {name : String} (hne : name.toList ≠ []) (hdot : name.toList ≠ ['.'])
    (hup : name ≠ "..") (hslash : '/' ∉ name.toList) (hback : '\\' ∉ name.toList) :
    Source.make content name = .ok ⟨content, name⟩ := by
  have hsame : (name.toList.map fun c => if c = '\\' then '/' else c) = name.toList := by
    refine (List.map_congr_left fun c hc => if_neg ?_).trans (List.map_id' _)
    rintro rfl
    exact hback hc
  have hname : (ofChars name.toList).name = name := by
    rw [← ofText, ofText_of_isPart hne hdot hslash]
    rfl
  have hempty : name ≠ "" := fun he => hne (he ▸ rfl)
  have hsingle : name ≠ "." := fun he => hdot (he ▸ rfl)
  rw [Source.make, Source.safeName?, hsame, hname, if_neg (by simp [hempty, hsingle, hup])]

/-! ### Paths as texts -/

/-- A path as it is read from a text: no component is empty, a single dot, or has a slash. -/
def Regular (p : Path) : Prop := ∀ part ∈ p.parts, part.toList ≠ [] ∧ part.toList ≠ ['.'] ∧ '/' ∉ part.toList

theorem regular_ofText (s : String) : (ofText s).Regular := fun _ => mem_parts_ofText

theorem Regular.join {p q : Path} (hp : p.Regular) (hq : q.Regular) : (p.join q).Regular := by
  intro part hpart
  rw [Path.join] at hpart
  split at hpart
  · exact hq part hpart
  · exact (List.mem_append.1 hpart).elim (hp part) (hq part)

theorem Regular.child {p : Path} (hp : p.Regular) (name : String) : (p.child name).Regular := hp.join (regular_ofText name)

theorem splitSlashes_append_slash (rest : List Char) : ∀ {piece : List Char}, '/' ∉ piece →
    splitSlashes (piece ++ '/' :: rest) = piece :: splitSlashes rest
  | [], _ => by simp [splitSlashes]
  | c :: piece, h => by
    have hc : c ≠ '/' := fun he => h (he ▸ .head _)
    rw [List.cons_append, splitSlashes, if_neg hc, splitSlashes_append_slash rest fun hm => h (.tail _ hm)]

/-- Pieces without slashes are found again between the slashes that are put between them. -/
theorem splitSlashes_intercalate : ∀ {pieces : List (List Char)}, pieces ≠ [] → (∀ piece ∈ pieces, '/' ∉ piece) →
    splitSlashes (['/'].intercalate pieces) = pieces
  | [], h, _ => absurd rfl h
  | [piece], _, h => by
    simpa [List.intercalate] using splitSlashes_of_not_mem (h piece (.head _))
  | piece :: next :: rest, _, h => by
    have htail := splitSlashes_intercalate (List.cons_ne_nil next rest) fun p hp => h p (.tail _ hp)
    have hjoin : ['/'].intercalate (piece :: next :: rest) = piece ++ '/' :: ['/'].intercalate (next :: rest) := by
      simp [List.intercalate]
    rw [hjoin, splitSlashes_append_slash _ (h piece (.head _)), htail]

theorem splitSlashes_replicate (rest : List Char) : ∀ n : Nat,
    splitSlashes (List.replicate n '/' ++ rest) = List.replicate n [] ++ splitSlashes rest
  | 0 => rfl
  | n + 1 => by
    rw [List.replicate_succ, List.cons_append, splitSlashes, if_pos rfl, splitSlashes_replicate rest n,
      List.replicate_succ, List.cons_append]

/-- How many slashes a path starts with. -/
def Anchor.slashes : Anchor → Nat
  | .none => 0
  | .root => 1
  | .doubleRoot => 2

theorem toList_anchorText (a : Anchor) : (anchorText a).toList = List.replicate (Anchor.slashes a) '/' := by
  cases a <;> rfl

theorem ofChars_of_pieces (a : Anchor) {pieces : List (List Char)}
    (h : ∀ piece ∈ pieces, piece ≠ [] ∧ piece ≠ ['.'] ∧ '/' ∉ piece) :
    ofChars (List.replicate (Anchor.slashes a) '/' ++ ['/'].intercalate pieces) = ⟨a, pieces.map String.ofList⟩ := by
  have hparts : (splitSlashes (List.replicate (Anchor.slashes a) '/' ++ ['/'].intercalate pieces)).filter isPart = pieces := by
    rw [splitSlashes_replicate, List.filter_append]
    have hslashes : (List.replicate (Anchor.slashes a) ([] : List Char)).filter isPart = [] := by
      simp [isPart]
    rw [hslashes, List.nil_append]
    cases pieces with
    | nil => rfl
    | cons piece rest =>
      rw [splitSlashes_intercalate (List.cons_ne_nil _ _) fun p hp => (h p hp).2.2, List.filter_eq_self]
      intro p hp
      simp [isPart, (h p hp).1, (h p hp).2.1]
  have hstart : ∀ n : Nat, ((List.replicate n '/' ++ ['/'].intercalate pieces).takeWhile (· = '/')).length = n := by
    intro n
    rw [List.takeWhile_append_of_pos (by simp)]
    have hbody : (['/'].intercalate pieces).takeWhile (· = '/') = [] := by
      cases pieces with
      | nil => rfl
      | cons piece rest =>
        obtain ⟨hne, -, hslash⟩ := h piece (.head _)
        obtain ⟨c, cs, rfl⟩ := List.exists_cons_of_ne_nil hne
        have hc : c ≠ '/' := fun he => hslash (he ▸ .head _)
        cases rest <;> simp [List.intercalate, hc]
    simp [hbody]
  rw [ofChars, hparts, hstart]
  cases a <;> rfl

/-- A path is read back from its text. -/
theorem ofText_text {p : Path} (h : p.Regular) : ofText p.text = p := by
  obtain ⟨anchor, parts⟩ := p
  have hpieces : ∀ piece ∈ parts.map String.toList, piece ≠ [] ∧ piece ≠ ['.'] ∧ '/' ∉ piece := by
    intro piece hpiece
    obtain ⟨part, hpart, rfl⟩ := List.mem_map.1 hpiece
    exact h part hpart
  have hback : (parts.map String.toList).map String.ofList = parts := by
    simp [Function.comp_def]
  rw [text]
  split
  next hempty =>
    obtain ⟨rfl, rfl⟩ : anchor = .none ∧ parts = [] := hempty
    rfl
  next =>
    have hchars := ofChars_of_pieces anchor hpieces
    rw [hback] at hchars
    rw [ofText, String.toList_append, String.toList_intercalate, toList_anchorText]
    exact hchars

end Adjudication.Files.Path
