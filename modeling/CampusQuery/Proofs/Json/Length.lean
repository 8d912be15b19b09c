import CampusQuery.Proofs.Json.Scan
import CampusQuery.Proofs.Text.ByteOrder
import Mathlib

namespace CampusQuery

theorem length_le_utf8ByteSize (s : String) : s.toList.length ≤ s.utf8ByteSize := by
  have hbytes : (utf8Bytes s).length = s.utf8ByteSize := rfl
  rw [← hbytes, utf8Bytes_eq, List.length_flatMap]
  have hone : ∀ n ∈ s.toList.map fun c => (String.utf8EncodeChar c).length, 1 ≤ n := by
    intro n hn
    obtain ⟨c, -, rfl⟩ := List.mem_map.mp hn
    exact List.length_pos_of_ne_nil (utf8EncodeChar_ne_nil c)
  simpa using List.length_le_sum_of_one_le _ hone

namespace Json

/-- The tokens of a text are no more than its characters. -/
theorem Token.length_of_scan {read tokens : List Token} {cs : List Char}
    (h : scan read cs = some tokens) : tokens.length ≤ read.length + cs.length := by
  fun_induction scan read cs with
  | case1 read cs hnil =>
    cases h
    simp
  | case2 read cs c tail hcons t rest hhead ih =>
    have hrest := length_of_head? hhead
    have hdrop := length_dropWhile_le isSpace cs
    rw [hcons] at hdrop
    have := ih h
    rw [List.length_cons] at this
    omega
  | case3 => cases h

/-- The items of an array; other values have none. -/
def itemCount : Json → ℕ
  | array items => items.length
  | _ => 0

theorem itemCount_of_ofNumeral? {n : Numeral} {v : Json} (h : ofNumeral? n = some v) :
    v.itemCount = 0 := by
  unfold ofNumeral? at h
  split at h
  · cases h
    rfl
  · split at h
    · cases h
      rfl
    · cases h

def Frame.itemCount : Frame → ℕ
  | .array items => items.length
  | .object _ _ => 0

namespace Reading

/-- The items of all open arrays, or of the value that is read. -/
def itemCount : Reading → ℕ
  | document => 0
  | item items outer | afterItem items outer => items.length + (outer.map Frame.itemCount).sum
  | key _ outer | colon _ _ outer | value _ _ outer | afterMember _ outer =>
    (outer.map Frame.itemCount).sum
  | finished v => v.itemCount

theorem itemCount_complete (v : Json) (frames : List Frame) :
    (complete v frames).itemCount ≤ max 1 v.itemCount + (frames.map Frame.itemCount).sum := by
  rcases frames with _ | ⟨⟨items⟩ | ⟨members, k⟩, outer⟩
  · simp [complete, itemCount]
  · simp only [complete, itemCount, List.map_cons, List.sum_cons, Frame.itemCount, List.length_cons]
    omega
  · simp [complete, itemCount, Frame.itemCount]

variable {limit : ℕ} {frames : List Frame} {t : Token} {r r' : Reading}

theorem itemCount_start (h : start limit frames t = some r) :
    r.itemCount ≤ 1 + (frames.map Frame.itemCount).sum := by
  have hscalar {v : Json} (hv : v.itemCount = 0) :
      (complete v frames).itemCount ≤ 1 + (frames.map Frame.itemCount).sum := by
    have := itemCount_complete v frames
    omega
  unfold start at h
  split at h
  · cases h
    exact hscalar rfl
  · cases h
    exact hscalar rfl
  · obtain ⟨v, hv, rfl⟩ := Option.map_eq_some_iff.mp h
    exact hscalar (itemCount_of_ofNumeral? hv)
  · cases h
    exact hscalar rfl
  · split at h
    · cases h
      simp [itemCount]
    · cases h
  · split at h
    · cases h
      simp [itemCount]
    · cases h
  · cases h

/-- A token adds at most one item. -/
theorem itemCount_step (h : step limit r t = some r') : r'.itemCount ≤ r.itemCount + 1 := by
  unfold step at h
  split at h
  -- A value starts within the frames that are open.
  case h_1 | h_3 | h_9 =>
    refine (itemCount_start h).trans (le_of_eq ?_)
    simp only [itemCount, Frame.itemCount, List.map_nil, List.map_cons, List.sum_nil, List.sum_cons]
    omega
  -- An array or object is complete.
  case h_2 | h_5 | h_6 | h_11 =>
    cases h
    refine (itemCount_complete _ _).trans ?_
    simp only [ofMembers, Json.itemCount, itemCount, List.length_nil, List.length_reverse]
    omega
  case h_12 => cases h
  all_goals
    cases h
    exact Nat.le_succ _

theorem itemCount_foldlM {tokens : List Token} (h : tokens.foldlM (step limit) r = some r') :
    r'.itemCount ≤ r.itemCount + tokens.length := by
  induction tokens generalizing r with
  | nil =>
    cases h
    exact le_rfl
  | cons t tokens ih =>
    rw [List.foldlM_cons] at h
    obtain ⟨next, hnext, h⟩ := Option.bind_eq_some_iff.mp h
    have := itemCount_step hnext
    have := ih h
    rw [List.length_cons]
    omega

end Reading

theorem length_of_read? {limit : ℕ} {s : String} {items : List Json}
    (h : read? limit s.toList = some (.array items)) : items.length ≤ s.utf8ByteSize := by
  unfold read? at h
  obtain ⟨tokens, htokens, h⟩ := Option.bind_eq_some_iff.mp h
  obtain ⟨r, hr, h⟩ := Option.bind_eq_some_iff.mp h
  split at h
  · cases h
    have hitems := Reading.itemCount_foldlM hr
    have hscan := Token.length_of_scan htokens
    have hbytes := length_le_utf8ByteSize s
    change items.length ≤ 0 + tokens.length at hitems
    rw [List.length_nil] at hscan
    omega
  · cases h

end Json

end CampusQuery
