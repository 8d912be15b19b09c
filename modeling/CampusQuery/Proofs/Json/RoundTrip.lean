import CampusQuery.Json.Writer
import CampusQuery.Proofs.Json.Feed
import CampusQuery.Proofs.Json.Whole
import CampusQuery.Proofs.Keyed

namespace CampusQuery

namespace Json

mutual

/-- The value that the written value is read as: objects with each key once, numbers that JSON has
no text for as null, and all else as it was. -/
def settled : Json → Json
  | .double x => if x.isFinite then .double x else .null
  | .array items => .array (settledItems items)
  | .object members => ofMembers (settledMembers members)
  | v => v

def settledItems : List Json → List Json
  | [] => []
  | v :: vs => settled v :: settledItems vs

def settledMembers : List (String × Json) → List (String × Json)
  | [] => []
  | (k, v) :: ms => (k, settled v) :: settledMembers ms

end

/-- At most `depth` arrays and objects are nested, and whole numbers have at most 64 bits. -/
inductive Fits : ℕ → Json → Prop
  | null {depth : ℕ} : Fits depth .null
  | bool {depth : ℕ} {b : Bool} : Fits depth (.bool b)
  | int {depth : ℕ} {n : ℤ} (low : -0x8000_0000_0000_0000 ≤ n) (high : n < 0x1_0000_0000_0000_0000) :
      Fits depth (.int n)
  | double {depth : ℕ} {x : Binary64} : Fits depth (.double x)
  | string {depth : ℕ} {s : String} : Fits depth (.string s)
  | array {depth : ℕ} {items : List Json} (h : ∀ v ∈ items, Fits depth v) :
      Fits (depth + 1) (.array items)
  | object {depth : ℕ} {members : List (String × Json)} (h : ∀ m ∈ members, Fits depth m.2) :
      Fits (depth + 1) (.object members)

theorem eq_map {α β : Type} {f : α → β} {g : List α → List β} (hnil : g [] = [])
    (hcons : ∀ a as, g (a :: as) = f a :: g as) (as : List α) : g as = as.map f := by
  induction as with
  | nil => exact hnil
  | cons a as ih => rw [hcons, ih, List.map_cons]

theorem settledItems_eq_map (items : List Json) : settledItems items = items.map settled :=
  eq_map rfl (fun _ _ => rfl) items

theorem settledMembers_eq_map (members : List (String × Json)) :
    settledMembers members = members.map fun m => (m.1, m.2.settled) :=
  eq_map rfl (fun _ _ => rfl) members

/-- Sorting the members before does not matter. -/
theorem settled_ofMembers (members : List (String × Json)) :
    (ofMembers members).settled = (Json.object members).settled := by
  rw [ofMembers, settled, settled, settledMembers_eq_map, settledMembers_eq_map,
    ← Keyed.ofPairs_map, ofMembers, ofMembers, (Keyed.increasing_ofPairs _).ofPairs_eq]

def Reading.Awaits (limit : ℕ) (r : Reading) (frames : List Frame) : Prop :=
  ∀ t, t ≠ .closeArray → step limit r t = start limit frames t

/-- Wherever a value is due, the text is read as this one, `depth` deep. -/
def Spells (text : List Char) (v : Json) (depth : ℕ) : Prop :=
  ∀ ⦃limit : ℕ⦄ ⦃r : Reading⦄ ⦃frames : List Frame⦄ ⦃rest : List Char⦄, r.Awaits limit frames →
    frames.length + depth ≤ limit → Numeral.Ends rest →
    feed limit r (text ++ rest) = feed limit (.complete v frames) rest

def Spaces (cs : List Char) : Prop := ∀ c ∈ cs, Token.isSpace c = true

theorem Reading.awaits_document (limit : ℕ) : document.Awaits limit [] := fun _ _ => rfl

theorem Reading.awaits_item (limit : ℕ) (items : List Json) (outer : List Frame) :
    (item items outer).Awaits limit (.array items :: outer) := by
  intro t ht
  cases items with
  | nil => cases t <;> first | rfl | contradiction
  | cons v items => rfl

theorem Reading.awaits_value (limit : ℕ) (members : List (String × Json)) (k : String)
    (outer : List Frame) : (value members k outer).Awaits limit (.object members k :: outer) :=
  fun _ _ => rfl

theorem Reading.step_key_text (limit : ℕ) (members : List (String × Json)) (k : String)
    (outer : List Frame) : step limit (key members outer) (.text k) = some (colon members k outer) := by
  cases members <;> rfl

theorem Spaces.ends {spaces rest : List Char} (h : Spaces spaces) (hrest : Numeral.Ends rest) :
    Numeral.Ends (spaces ++ rest) := by
  cases spaces with
  | nil => exact hrest
  | cons c spaces =>
    intro c' hc'
    obtain rfl := Option.some.inj hc'
    have hspace := h c List.mem_cons_self
    simp only [Token.isSpace, Bool.or_eq_true, decide_eq_true_eq] at hspace
    rcases hspace with ((rfl | rfl) | rfl) | rfl <;> decide

theorem ends_of_not_numeral {c : Char} (h : c ∈ [',', ']', '\x7d']) (rest : List Char) :
    Numeral.Ends (c :: rest) := by
  intro c' hc'
  obtain rfl := Option.some.inj hc'
  simp only [List.mem_cons, List.not_mem_nil, or_false] at h
  rcases h with rfl | rfl | rfl <;> decide

theorem spells_null (depth : ℕ) : Spells ['n', 'u', 'l', 'l'] .null depth :=
  fun _ _ _ _ hr _ _ => feed_of_head? rfl (hr .null (by decide))

theorem spells_bool (b : Bool) (depth : ℕ) : Spells (compact (.bool b)) (.bool b) depth := by
  intro limit r frames rest hr _ _
  cases b with
  | true => exact feed_of_head? rfl (hr (.bool true) (by decide))
  | false => exact feed_of_head? rfl (hr (.bool false) (by decide))

theorem spells_string (s : String) (depth : ℕ) : Spells (Literal.render s) (.string s) depth :=
  fun _ _ _ rest hr _ _ => feed_text (hr (.text s) (by simp)) rest

theorem step_number {limit : ℕ} {r : Reading} {frames : List Frame} {n : Numeral} {v : Json}
    (hr : r.Awaits limit frames) (h : ofNumeral? n = some v) :
    Reading.step limit r (.number n) = some (.complete v frames) := by
  rw [hr (.number n) (by simp), Reading.start, h, Option.map_some]

theorem spells_int {n : ℤ} (low : -0x8000_0000_0000_0000 ≤ n) (high : n < 0x1_0000_0000_0000_0000)
    (depth : ℕ) : Spells (Layout.intText n) (.int n) depth := by
  intro limit r frames rest hr _ hrest
  exact feed_number (Layout.read?_intText n hrest) (step_number hr (ofNumeral?_int low high))

theorem spells_double {x : Binary64} (hx : x.isFinite = true) (depth : ℕ) :
    Spells (doubleText x) (.double x) depth := by
  intro limit r frames rest hr _ hrest
  cases x with
  | infinite s => cases hx
  | quietNaN s p => cases hx
  | finite s m =>
    obtain ⟨n, hread, hvalue, hplain⟩ := Layout.json.read?_magnitudeText s m hrest
    have hinteger : n.integer? = none := if_pos (.inl (hplain rfl))
    have hnumeral : ofNumeral? n = some (.double (.finite s m)) := by
      rw [ofNumeral?, hinteger]
      simp only [hvalue]
      exact if_pos rfl
    have htext : doubleText (.finite s m) ++ rest =
        Numeral.signText s ++ (Layout.json.magnitudeText m ++ rest) := by
      rw [doubleText, if_pos hx, Layout.render, String.toList_ofList, List.append_assoc]
      rfl
    rw [htext]
    exact feed_number hread (step_number hr hnumeral)

def SpellsPart {α : Type} (limit : ℕ) (due after : List α → Reading) (text : List Char) (a : α) :
    Prop :=
  ∀ ⦃done : List α⦄ ⦃rest : List Char⦄, Numeral.Ends rest →
    feed limit (due done) (text ++ rest) = feed limit (after (a :: done)) rest

/-- Parts with commas between them are read one after the other. -/
theorem feed_intercalate {α : Type} {limit : ℕ} {due after : List α → Reading} {between : List Char}
    (hbetween : Spaces between)
    (hcomma : ∀ done, Reading.step limit (after done) .comma = some (due done))
    {parts : List (List Char)} {values : List α}
    (h : List.Forall₂ (SpellsPart limit due after) parts values) (hne : parts ≠ [])
    (done : List α) {rest : List Char} (hrest : Numeral.Ends rest) :
    feed limit (due done) ((',' :: between).intercalate parts ++ rest) =
      feed limit (after (values.reverse ++ done)) rest := by
  induction h generalizing done with
  | nil => contradiction
  | @cons part a parts values hpart hparts ih =>
    rw [List.reverse_cons, List.append_assoc, List.singleton_append]
    cases parts with
    | nil =>
      cases hparts
      rw [List.intercalate_singleton]
      exact hpart hrest
    | cons next parts =>
      have hends := ends_of_not_numeral (c := ',') (by decide)
        (between ++ ((',' :: between).intercalate (next :: parts) ++ rest))
      rw [List.intercalate_cons_cons, List.append_assoc, List.append_assoc, List.cons_append,
        hpart hends, feed_of_head? rfl (hcomma (a :: done)), feed_spaces hbetween,
        ih (List.cons_ne_nil _ _)]

section Brackets

variable {before between behind : List Char} {parts : List (List Char)} {depth : ℕ}

theorem spells_array (hbefore : Spaces before) (hbetween : Spaces between) (hbehind : Spaces behind)
    {items : List Json} (h : List.Forall₂ (Spells · · depth) parts items) :
    Spells ('[' :: (before ++ ((',' :: between).intercalate parts ++ (behind ++ [']']))))
      (.array items) (depth + 1) := by
  intro limit r frames rest hr hdepth _
  have hopen : Reading.step limit r .openArray = some (.item [] frames) := by
    rw [hr .openArray (by decide)]
    exact if_pos (by omega)
  have hends := hbehind.ends (ends_of_not_numeral (c := ']') (by decide) rest)
  simp only [List.cons_append, List.append_assoc, List.nil_append]
  rw [feed_of_head? rfl hopen, feed_spaces hbefore]
  by_cases hne : parts = []
  · subst hne
    cases h
    rw [List.intercalate_nil, List.nil_append, feed_spaces hbehind]
    exact feed_of_head? rfl rfl
  · have hitems : List.Forall₂ (SpellsPart limit (.item · frames) (.afterItem · frames)) parts items := by
      refine h.imp ?_
      intro part v hspells done rest' hrest'
      exact hspells (Reading.awaits_item limit done frames) (by simp; omega) hrest'
    have hclose : Reading.step limit (.afterItem items.reverse frames) .closeArray =
        some (.complete (.array items) frames) := by rw [Reading.step, List.reverse_reverse]
    rw [feed_intercalate hbetween (fun _ => rfl) hitems hne []
      hends, feed_spaces hbehind, List.append_nil]
    exact feed_of_head? rfl hclose

theorem spells_object {gap : List Char} (hbefore : Spaces before) (hbetween : Spaces between)
    (hbehind : Spaces behind) (hgap : Spaces gap) {members : List (String × Json)}
    (h : List.Forall₂ (fun part m => ∃ text, part = keyText m.1 ++ (gap ++ text) ∧
      Spells text m.2 depth) parts members) :
    Spells ('\x7b' :: (before ++ ((',' :: between).intercalate parts ++ (behind ++ ['\x7d']))))
      (ofMembers members) (depth + 1) := by
  intro limit r frames rest hr hdepth _
  have hopen : Reading.step limit r .openObject = some (.key [] frames) := by
    rw [hr .openObject (by decide)]
    exact if_pos (by omega)
  have hends := hbehind.ends (ends_of_not_numeral (c := '\x7d') (by decide) rest)
  simp only [List.cons_append, List.append_assoc, List.nil_append]
  rw [feed_of_head? rfl hopen, feed_spaces hbefore]
  -- Without members the bracket is closed behind the spaces.
  by_cases hne : parts = []
  · subst hne
    cases h
    rw [List.intercalate_nil, List.nil_append, feed_spaces hbehind]
    exact feed_of_head? rfl rfl
  · have hmembers : List.Forall₂ (SpellsPart limit (.key · frames) (.afterMember · frames)) parts
        members := by
      refine h.imp ?_
      rintro _ ⟨k, v⟩ ⟨text, rfl, hspells⟩ done rest' hrest'
      rw [keyText, List.append_assoc, List.append_assoc, List.append_assoc,
        feed_text (Reading.step_key_text limit done k frames), List.singleton_append,
        feed_of_head? (t := .colon) rfl rfl, feed_spaces hgap]
      exact hspells (Reading.awaits_value limit done k frames) (by simp; omega) hrest'
    have hclose : Reading.step limit (.afterMember members.reverse frames) .closeObject =
        some (.complete (ofMembers members) frames) := by rw [Reading.step, List.reverse_reverse]
    rw [feed_intercalate hbetween (fun _ => rfl) hmembers hne []
      hends, feed_spaces hbehind, List.append_nil]
    exact feed_of_head? rfl hclose

end Brackets

theorem compactItems_eq_map (items : List Json) : compactItems items = items.map compact :=
  eq_map rfl (fun _ _ => rfl) items

theorem compactMembers_eq_map (members : List (String × Json)) :
    compactMembers members = members.map fun m => keyText m.1 ++ compact m.2 :=
  eq_map rfl (fun _ _ => rfl) members

theorem indentedItems_eq_map (level : ℕ) (items : List Json) :
    indentedItems level items = items.map (indented level) :=
  eq_map rfl (fun _ _ => rfl) items

theorem indentedMembers_eq_map (level : ℕ) (members : List (String × Json)) :
    indentedMembers level members =
      members.map fun m => keyText m.1 ++ ' ' :: indented level m.2 :=
  eq_map rfl (fun _ _ => rfl) members

theorem spaces_nil : Spaces [] := fun _ hc => nomatch hc

theorem spaces_singleton {c : Char} (h : Token.isSpace c = true) : Spaces [c] :=
  fun _ hc => List.mem_singleton.mp hc ▸ h

theorem spaces_newLine (level : ℕ) : Spaces (newLine level) := by
  intro c hc
  rcases List.mem_cons.mp hc with rfl | hc
  · decide
  · rw [List.eq_of_mem_replicate hc]
    decide

/-- The spaces around and between the parts of an array or object; there are none if it is empty. -/
theorem exists_block (level : ℕ) (left right : Char) (parts : List (List Char)) :
    ∃ before between behind, Spaces before ∧ Spaces between ∧ Spaces behind ∧
      block level left right parts =
        left :: (before ++ ((',' :: between).intercalate parts ++ (behind ++ [right]))) := by
  cases parts with
  | nil => exact ⟨[], [], [], spaces_nil, spaces_nil, spaces_nil, rfl⟩
  | cons part parts =>
    refine ⟨newLine (level + 1), newLine (level + 1), newLine level, spaces_newLine _,
      spaces_newLine _, spaces_newLine _, ?_⟩
    simp [block]

theorem spells_doubleText (x : Binary64) (depth : ℕ) :
    Spells (doubleText x) (settled (.double x)) depth := by
  rw [settled]
  split
  · exact spells_double (by assumption) depth
  · rename_i hx
    rw [doubleText, if_neg hx]
    exact spells_null depth

theorem Fits.spells_compact {v : Json} {depth : ℕ} (h : v.Fits depth) :
    Spells (compact v) v.settled depth := by
  induction h with
  | null => exact spells_null _
  | bool => exact spells_bool _ _
  | int low high => exact spells_int low high _
  | double => exact spells_doubleText _ _
  | string => exact spells_string _ _
  | @array depth items _ ih =>
    rw [compact, settled, compactItems_eq_map, settledItems_eq_map]
    refine @spells_array [] [] [] _ depth spaces_nil spaces_nil spaces_nil _ ?_
    rw [List.forall₂_map_left_iff, List.forall₂_map_right_iff, List.forall₂_same]
    exact ih
  | @object depth members _ ih =>
    rw [compact, settled, compactMembers_eq_map, settledMembers_eq_map]
    refine @spells_object [] [] [] _ depth [] spaces_nil spaces_nil spaces_nil spaces_nil _ ?_
    rw [List.forall₂_map_left_iff, List.forall₂_map_right_iff, List.forall₂_same]
    exact fun m hm => ⟨compact m.2, rfl, ih m hm⟩

theorem Fits.spells_indented {v : Json} {depth : ℕ} (h : v.Fits depth) (level : ℕ) :
    Spells (indented level v) v.settled depth := by
  induction h generalizing level with
  | null => exact spells_null _
  | bool => exact spells_bool _ _
  | int low high => exact spells_int low high _
  | double => exact spells_doubleText _ _
  | string => exact spells_string _ _
  | @array depth items _ ih =>
    rw [indented, settled, indentedItems_eq_map, settledItems_eq_map]
    obtain ⟨before, between, behind, hbefore, hbetween, hbehind, hblock⟩ :=
      exists_block level '[' ']' (items.map (indented (level + 1)))
    rw [hblock]
    refine spells_array hbefore hbetween hbehind ?_
    rw [List.forall₂_map_left_iff, List.forall₂_map_right_iff, List.forall₂_same]
    exact fun v hv => ih v hv (level + 1)
  | @object depth members _ ih =>
    rw [indented, settled, indentedMembers_eq_map, settledMembers_eq_map]
    obtain ⟨before, between, behind, hbefore, hbetween, hbehind, hblock⟩ :=
      exists_block level '\x7b' '\x7d'
        (members.map fun m => keyText m.1 ++ ' ' :: indented (level + 1) m.2)
    have hgap : Spaces [' '] := spaces_singleton rfl
    rw [hblock]
    refine spells_object hbefore hbetween hbehind hgap ?_
    rw [List.forall₂_map_left_iff, List.forall₂_map_right_iff, List.forall₂_same]
    exact fun m hm => ⟨indented (level + 1) m.2, rfl, ih m hm (level + 1)⟩

/-- The text of a value, and spaces behind it, are read as the value. -/
theorem Spells.read? {text : List Char} {v : Json} {depth limit : ℕ} (h : Spells text v depth)
    (hdepth : depth ≤ limit) {behind : List Char} (hbehind : Spaces behind) :
    read? limit (text ++ behind) = some v := by
  have hends : Numeral.Ends behind := List.append_nil behind ▸ hbehind.ends Numeral.ends_nil
  rw [read?_eq_feed, h (Reading.awaits_document limit) (by simpa using hdepth) hends,
    Reading.complete, ← List.append_nil behind, feed_spaces hbehind, feed_nil]

variable {v : Json} {depth limit : ℕ}

/-- On one line or indented, a written value is read as the settled one. -/
theorem Fits.read?_toText (h : v.Fits depth) (hdepth : depth ≤ limit) :
    Json.read? limit v.toText.toList = some v.settled := by
  have hread := h.spells_compact.read? hdepth spaces_nil
  rwa [List.append_nil, ← String.toList_ofList (l := compact v)] at hread

theorem Fits.read?_toIndentedText (h : v.Fits depth) (hdepth : depth ≤ limit) :
    Json.read? limit (v.toIndentedText ++ "\n").toList = some v.settled := by
  have hline : Spaces ['\n'] := spaces_singleton rfl
  have hread := (h.spells_indented 0).read? hdepth hline
  rw [toIndentedText, String.toList_append, String.toList_ofList]
  exact hread

end Json

end CampusQuery
