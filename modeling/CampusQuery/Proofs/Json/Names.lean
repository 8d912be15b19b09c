import CampusQuery.Proofs.Json.RoundTrip
import CampusQuery.Proofs.Outcome

namespace CampusQuery

open Outcome

namespace Json

/-- The names in each object, in the order in which the objects end; `opened` holds those so far of
the objects that are open, the innermost first. -/
def namesFrom : (opened : List (List String)) → List Token → List (List String)
  | names :: outer, .text name :: .colon :: rest => namesFrom ((names ++ [name]) :: outer) rest
  | opened, .openObject :: rest => namesFrom ([] :: opened) rest
  | names :: outer, .closeObject :: rest => names :: namesFrom outer rest
  | opened, _ :: rest => namesFrom opened rest
  | _, [] => []

/-- Reading merges and sorts the names, so they are taken from the tokens. -/
def writtenNames? (text : String) : Option (List (List String)) :=
  (Token.scan [] text.toList).map (namesFrom [])

mutual

/-- The names in each object of a value, those of inner objects first. -/
def listed : Json → List (List String)
  | .array items => listedItems items
  | .object members => listedMembers members ++ [members.map (·.1)]
  | _ => []

def listedItems : List Json → List (List String)
  | [] => []
  | v :: vs => listed v ++ listedItems vs

def listedMembers : List (String × Json) → List (List String)
  | [] => []
  | (_, v) :: ms => listed v ++ listedMembers ms

end

theorem listedItems_eq_flatMap (items : List Json) : listedItems items = items.flatMap listed := by
  induction items with
  | nil => rfl
  | cons v items ih => rw [listedItems, ih, List.flatMap_cons]

theorem listedMembers_eq_flatMap (members : List (String × Json)) :
    listedMembers members = members.flatMap fun m => m.2.listed := by
  induction members with
  | nil => rfl
  | cons m members ih => rw [listedMembers, ih, List.flatMap_cons]

/-- The text has the given tokens, whatever follows it. -/
def Scans (text : List Char) (tokens : List Token) : Prop :=
  ∀ ⦃rest : List Char⦄, Numeral.Ends rest →
    Token.scan [] (text ++ rest) = (Token.scan [] rest).map (tokens ++ ·)

theorem scan_cons {cs rest : List Char} {t : Token}
    (h : Token.head? (cs.dropWhile Token.isSpace) = some (t, rest)) :
    Token.scan [] cs = (Token.scan [] rest).map (t :: ·) := by
  rw [Token.scan_of_head? [] h, Token.scan_eq_map [t]]
  rfl

theorem scan_spaces {spaces : List Char} (h : Spaces spaces) (cs : List Char) :
    Token.scan [] (spaces ++ cs) = Token.scan [] cs := by
  induction spaces with
  | nil => rfl
  | cons c spaces ih =>
    have hspaces := List.forall_mem_cons.mp h
    rw [List.cons_append, Token.scan_of_space hspaces.1, ih hspaces.2]

theorem scan_text (s : String) (rest : List Char) :
    Token.scan [] (Literal.render s ++ rest) = (Token.scan [] rest).map (.text s :: ·) :=
  scan_cons (Token.head?_render s rest)

theorem scan_number {cs rest : List Char} {n : Numeral} (h : Numeral.read? cs = some (n, rest)) :
    Token.scan [] cs = (Token.scan [] rest).map (.number n :: ·) :=
  scan_cons (Token.head?_of_read? h)

theorem scans_intercalate {between : List Char} (hbetween : Spaces between)
    {parts : List (List Char)} {tokens : List (List Token)} (h : List.Forall₂ Scans parts tokens) :
    Scans ((',' :: between).intercalate parts) ([.comma].intercalate tokens) := by
  induction h with
  | nil =>
    intro rest _
    simp
  | @cons part ts parts tokens hpart hparts ih =>
    intro rest hrest
    cases hparts with
    | nil => simpa using hpart hrest
    | @cons next ts' parts tokens hnext hparts =>
      have hends := ends_of_not_numeral (c := ',') (by decide)
        (between ++ ((',' :: between).intercalate (next :: parts) ++ rest))
      rw [List.intercalate_cons_cons, List.intercalate_cons_cons, List.append_assoc,
        List.append_assoc, List.cons_append, hpart hends, scan_cons (t := .comma) rfl,
        scan_spaces hbetween, ih hrest, Option.map_map, Option.map_map]
      congr 1
      funext more
      simp

/-- From any open objects on the tokens list the given names, and lead to the open objects given. -/
def TokensList (tokens : List Token) (names : List (List String))
    (move : List (List String) → List (List String)) : Prop :=
  ∀ ⦃opened : List (List String)⦄ ⦃rest : List Token⦄, rest.head? ≠ some .colon →
    namesFrom opened (tokens ++ rest) = names ++ namesFrom (move opened) rest

def addName (name : String) : List (List String) → List (List String)
  | [] => []
  | names :: outer => (names ++ [name]) :: outer

theorem tokensList_intercalate {α : Type} (names : α → List (List String))
    (move : α → List (List String) → List (List String)) {tokens : List (List Token)} {as : List α}
    (h : List.Forall₂ (fun ts a => TokensList ts (names a) (move a)) tokens as) :
    TokensList ([.comma].intercalate tokens) (as.flatMap names)
      fun opened => as.foldl (fun o a => move a o) opened := by
  induction h with
  | nil =>
    intro opened rest _
    simp
  | @cons ts a tokens as hpart hparts ih =>
    intro opened rest hrest
    cases hparts with
    | nil => simpa using hpart hrest
    | @cons next a' tokens as hnext hparts =>
      have hcomma (opened : List (List String)) (more : List Token) :
          namesFrom opened (.comma :: more) = namesFrom opened more := by cases opened <;> rfl
      rw [List.intercalate_cons_cons, List.append_assoc, List.append_assoc, List.singleton_append,
        hpart (by simp), hcomma, ih hrest, List.flatMap_cons (x := a), List.append_assoc]
      rfl

theorem TokensList.cons_member {tokens : List Token} {names : List (List String)}
    (h : TokensList tokens names id) (k : String) :
    TokensList (.text k :: .colon :: tokens) names (addName k) := by
  intro opened rest hrest
  cases opened with
  | nil => exact h hrest
  | cons current outer => exact h hrest

def Lists (text : List Char) (v : Json) : Prop :=
  ∃ tokens, Scans text tokens ∧ TokensList tokens v.listed id

/-- A token that neither is a text nor opens or closes an object lists nothing. -/
theorem lists_token {text : List Char} {v : Json} {t : Token} (hscan : Scans text [t])
    (ht : ∀ opened rest, namesFrom opened (t :: rest) = namesFrom opened rest)
    (hv : v.listed = []) : Lists text v := by
  refine ⟨[t], hscan, ?_⟩
  intro opened rest _
  rw [hv]
  exact ht opened rest

theorem lists_null (v : Json) (hv : v.listed = []) : Lists ['n', 'u', 'l', 'l'] v :=
  lists_token (fun _ _ => scan_cons rfl) (fun opened _ => by cases opened <;> rfl) hv

theorem lists_bool (b : Bool) : Lists (compact (.bool b)) (.bool b) := by
  refine lists_token (t := .bool b) (fun _ _ => ?_) (fun opened _ => by cases opened <;> rfl) rfl
  cases b with
  | true => exact scan_cons rfl
  | false => exact scan_cons rfl

theorem lists_int (n : ℤ) : Lists (Layout.intText n) (.int n) :=
  lists_token (fun _ hrest => scan_number (Layout.read?_intText n hrest))
    (fun opened _ => by cases opened <;> rfl) rfl

theorem lists_string (s : String) : Lists (Literal.render s) (.string s) := by
  refine ⟨[.text s], fun rest _ => scan_text s rest, ?_⟩
  intro opened rest hrest
  -- Only a text in front of a colon is a name.
  cases opened with
  | nil => rfl
  | cons names outer =>
    cases rest with
    | nil => rfl
    | cons t rest => cases t <;> first | rfl | exact absurd rfl hrest

theorem lists_doubleText (x : Binary64) : Lists (doubleText x) (.double x) := by
  by_cases hx : x.isFinite = true
  · cases x with
    | infinite s => cases hx
    | quietNaN s p => cases hx
    | finite s m =>
      obtain ⟨spelling, htext, -⟩ := Layout.json.exists_spelling_magnitudeText m
      refine lists_token (t := .number (spelling.numeral s)) (fun rest hrest => ?_)
        (fun opened _ => by cases opened <;> rfl) rfl
      have hcompact : doubleText (.finite s m) ++ rest =
          Numeral.signText s ++ (spelling.text ++ rest) := by
        rw [doubleText, if_pos hx, Layout.render, String.toList_ofList, List.append_assoc, htext]
        rfl
      rw [hcompact]
      exact scan_number (spelling.read?_append s hrest)
  · rw [doubleText, if_neg hx]
    exact lists_null _ rfl

section Brackets

variable {before between behind : List Char} {parts : List (List Char)}

theorem scans_brackets {left right : Char} {opening closing : Token} (hbefore : Spaces before)
    (hbetween : Spaces between) (hbehind : Spaces behind) {tokens : List (List Token)}
    (hopen : ∀ rest, Token.head? ((left :: rest).dropWhile Token.isSpace) = some (opening, rest))
    (hclose : ∀ rest, Token.head? ((right :: rest).dropWhile Token.isSpace) = some (closing, rest))
    (hright : right ∈ [',', ']', '\x7d']) (h : List.Forall₂ Scans parts tokens) :
    Scans (left :: (before ++ ((',' :: between).intercalate parts ++ (behind ++ [right]))))
      (opening :: ([.comma].intercalate tokens ++ [closing])) := by
  intro rest _
  have hends := hbehind.ends (ends_of_not_numeral hright rest)
  simp only [List.cons_append, List.append_assoc, List.nil_append]
  rw [scan_cons (hopen _), scan_spaces hbefore, scans_intercalate hbetween h hends,
    scan_spaces hbehind, scan_cons (hclose rest)]
  simp only [Option.map_map]
  congr 1

theorem lists_array (hbefore : Spaces before) (hbetween : Spaces between) (hbehind : Spaces behind)
    {items : List Json} (h : List.Forall₂ Lists parts items) :
    Lists ('[' :: (before ++ ((',' :: between).intercalate parts ++ (behind ++ [']']))))
      (.array items) := by
  obtain ⟨tokens, hscans, hlist⟩ := exists_forall₂_of_comp h
  have hitems := tokensList_intercalate listed (fun _ => id) hlist
  refine ⟨_, scans_brackets hbefore hbetween hbehind (fun _ => rfl) (fun _ => rfl) (by decide)
    hscans, ?_⟩
  intro opened rest _
  have hopen (more : List Token) : namesFrom opened (.openArray :: more) = namesFrom opened more := by
    cases opened <;> rfl
  have hclose (more : List Token) :
      namesFrom opened (.closeArray :: more) = namesFrom opened more := by cases opened <;> rfl
  have hsame : items.foldl (fun o _ => id o) opened = opened := List.foldl_fixed items
  rw [List.cons_append, List.append_assoc, List.singleton_append, hopen, hitems (by simp), listed,
    listedItems_eq_flatMap]
  beta_reduce
  rw [hsame, hclose]
  rfl

theorem foldl_addName (members : List (String × Json)) (names : List String)
    (outer : List (List String)) : members.foldl (fun o m => addName m.1 o) (names :: outer) =
      (names ++ members.map (·.1)) :: outer := by
  induction members generalizing names with
  | nil => simp
  | cons m members ih =>
    rw [List.foldl_cons, addName, ih, List.append_assoc, List.singleton_append, List.map_cons]

theorem lists_object {gap : List Char} (hbefore : Spaces before) (hbetween : Spaces between)
    (hbehind : Spaces behind) (hgap : Spaces gap) {members : List (String × Json)}
    (h : List.Forall₂ (fun part m => ∃ text, part = keyText m.1 ++ (gap ++ text) ∧
      Lists text m.2) parts members) :
    Lists ('\x7b' :: (before ++ ((',' :: between).intercalate parts ++ (behind ++ ['\x7d']))))
      (.object members) := by
  have hmembers : List.Forall₂ (fun part m => ∃ tokens, Scans part tokens ∧
      TokensList tokens m.2.listed (addName m.1)) parts members := by
    refine h.imp ?_
    rintro _ ⟨k, v⟩ ⟨text, rfl, tokens, hscans, hlist⟩
    refine ⟨.text k :: .colon :: tokens, fun rest hrest => ?_, hlist.cons_member k⟩
    rw [keyText, List.append_assoc, List.append_assoc, List.append_assoc, scan_text,
      List.singleton_append, scan_cons (t := .colon) rfl, scan_spaces hgap, hscans hrest]
    simp only [Option.map_map]
    rfl
  obtain ⟨tokens, hscans, hlist⟩ := exists_forall₂_of_comp hmembers
  have hitems := tokensList_intercalate (fun m : String × Json => m.2.listed)
    (fun m => addName m.1) hlist
  refine ⟨_, scans_brackets hbefore hbetween hbehind (fun _ => rfl) (fun _ => rfl) (by decide)
    hscans, ?_⟩
  intro opened rest _
  have hopen (more : List Token) :
      namesFrom opened (.openObject :: more) = namesFrom ([] :: opened) more := by
    cases opened <;> rfl
  rw [List.cons_append, List.append_assoc, List.singleton_append, hopen, hitems (by simp), listed,
    listedMembers_eq_flatMap, List.append_assoc]
  beta_reduce
  rw [foldl_addName]
  rfl

end Brackets

theorem Fits.lists_compact {v : Json} {depth : ℕ} (h : v.Fits depth) : Lists (compact v) v := by
  induction h with
  | null => exact lists_null _ rfl
  | bool => exact lists_bool _
  | int => exact lists_int _
  | double => exact lists_doubleText _
  | string => exact lists_string _
  | @array depth items _ ih =>
    rw [compact, compactItems_eq_map]
    refine @lists_array [] [] [] _ spaces_nil spaces_nil spaces_nil _ ?_
    rw [List.forall₂_map_left_iff, List.forall₂_same]
    exact ih
  | @object depth members _ ih =>
    rw [compact, compactMembers_eq_map]
    refine @lists_object [] [] [] _ [] spaces_nil spaces_nil spaces_nil spaces_nil _ ?_
    rw [List.forall₂_map_left_iff, List.forall₂_same]
    exact fun m hm => ⟨compact m.2, rfl, ih m hm⟩

theorem Fits.lists_indented {v : Json} {depth : ℕ} (h : v.Fits depth) (level : ℕ) :
    Lists (indented level v) v := by
  induction h generalizing level with
  | null => exact lists_null _ rfl
  | bool => exact lists_bool _
  | int => exact lists_int _
  | double => exact lists_doubleText _
  | string => exact lists_string _
  | @array depth items _ ih =>
    rw [indented, indentedItems_eq_map]
    obtain ⟨before, between, behind, hbefore, hbetween, hbehind, hblock⟩ :=
      exists_block level '[' ']' (items.map (indented (level + 1)))
    rw [hblock]
    refine lists_array hbefore hbetween hbehind ?_
    rw [List.forall₂_map_left_iff, List.forall₂_same]
    exact fun v hv => ih v hv (level + 1)
  | @object depth members _ ih =>
    rw [indented, indentedMembers_eq_map]
    obtain ⟨before, between, behind, hbefore, hbetween, hbehind, hblock⟩ :=
      exists_block level '\x7b' '\x7d'
        (members.map fun m => keyText m.1 ++ ' ' :: indented (level + 1) m.2)
    have hgap : Spaces [' '] := spaces_singleton rfl
    rw [hblock]
    refine lists_object hbefore hbetween hbehind hgap ?_
    rw [List.forall₂_map_left_iff, List.forall₂_same]
    exact fun m hm => ⟨indented (level + 1) m.2, rfl, ih m hm (level + 1)⟩

theorem Lists.writtenNames?_eq {text behind : List Char} {v : Json} (h : Lists text v)
    (hbehind : Spaces behind) : writtenNames? (String.ofList (text ++ behind)) = some v.listed := by
  obtain ⟨tokens, hscans, hlist⟩ := h
  have hends : Numeral.Ends behind := List.append_nil behind ▸ hbehind.ends Numeral.ends_nil
  have hnone : Token.scan [] behind = some [] := by
    rw [← List.append_nil behind, scan_spaces hbehind, Token.scan_eq]
    rfl
  have hnames : namesFrom [] tokens = v.listed := by
    have hall := @hlist [] [] (by simp)
    simpa [namesFrom] using hall
  rw [writtenNames?, String.toList_ofList, hscans hends, hnone, Option.map_some, Option.map_some,
    List.append_nil, hnames]

variable {v : Json} {depth : ℕ}

/-- On one line or indented, a written value lists the names in its objects as it has them. -/
theorem Fits.writtenNames?_toText (h : v.Fits depth) : writtenNames? v.toText = some v.listed := by
  have hnames := h.lists_compact.writtenNames?_eq spaces_nil
  rwa [List.append_nil] at hnames

theorem Fits.writtenNames?_toIndentedText (h : v.Fits depth) :
    writtenNames? (v.toIndentedText ++ "\n") = some v.listed := by
  have hline : Spaces ['\n'] := spaces_singleton rfl
  have hnames := (h.lists_indented 0).writtenNames?_eq hline
  rwa [String.ofList_append] at hnames

end Json

end CampusQuery
