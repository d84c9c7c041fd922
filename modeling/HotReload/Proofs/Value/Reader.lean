import HotReload.Proofs.Settings.Commas
import HotReload.Value.Reader

/-!
# What JSON texts hold

A text in JSON stands in quotes and a list in brackets, and an escape is longer than what it stands
for. So what is read has less bulk than what it is read from.
-/
namespace HotReload.Value

open HotReload.Field (bulk bulkOf bulk_cons hasBulk)

theorem Cursor.rest_advance (c : Cursor) (n : Nat) : (c.advance n).rest = c.rest.drop n := rfl

theorem isBlank_of_isBlank {c : Char} (h : Cursor.isBlank c = true) : Text.isBlank c = true := by
  have hcases : ((c = ' ' ∨ c = '\t') ∨ c = '\n') ∨ c = '\r' := by simpa [Cursor.isBlank] using h
  rcases hcases with ((rfl | rfl) | rfl) | rfl <;> decide

/-- Blanks that are skipped are no loss. -/
theorem bulk_skipBlanks (c : Cursor) : bulk c.skipBlanks.rest = bulk c.rest := by
  have hblanks : bulk (c.rest.takeWhile Cursor.isBlank) = 0 :=
    Field.bulk_blanks
      (List.all_eq_true.mpr fun d hd => isBlank_of_isBlank (List.mem_takeWhile_imp hd))
  have hsplit := congrArg bulk (List.takeWhile_append_dropWhile (p := Cursor.isBlank) (l := c.rest))
  rwa [Field.bulk_append, hblanks, Nat.zero_add] at hsplit

theorem bulk_drop (n : Nat) (cs : List Char) : bulk (cs.drop n) ≤ bulk cs :=
  (List.drop_sublist n cs).countP_le

/-- What is read of a text in quotes has no more bulk than what was passed, and the
closing quote is passed too. -/
theorem bulk_readText {start fuel : Nat} {c c' : Cursor} {seen : List Char} {s : String}
    (h : readText start fuel c seen = .ok (s, c')) :
    bulk s.toList + bulk c'.rest + 1 ≤ bulk seen + bulk c.rest := by
  induction fuel generalizing c seen with
  | zero => cases h
  | succ fuel ih =>
    -- one character is read, and as much bulk is passed
    have further {n : Nat} {ch : Char}
        (hr : readText start fuel (c.advance n) (ch :: seen) = .ok (s, c'))
        (hn : bulk (c.rest.drop n) + (hasBulk ch).toNat ≤ bulk c.rest) :
        bulk s.toList + bulk c'.rest + 1 ≤ bulk seen + bulk c.rest := by
      have hle := ih hr
      rw [bulk_cons, Cursor.rest_advance] at hle
      omega
    rw [readText] at h
    split at h
    case h_1 | h_3 => cases h
    case h_2 tail hrest =>
      obtain ⟨rfl, rfl⟩ : String.ofList seen.reverse = s ∧ c.advance 1 = c' := by simpa using h
      rw [String.toList_ofList, Field.bulk_reverse, Cursor.rest_advance, hrest, List.drop_one,
        List.tail_cons, bulk_cons]
      exact Nat.le_of_eq (Nat.add_assoc ..)
    case h_4 rest hrest =>
      have hescape {n : Nat} (hn : 2 ≤ n) (ch : Char) : bulk (c.rest.drop n) + (hasBulk ch).toNat ≤
        bulk c.rest := by
        obtain ⟨m, rfl⟩ := Nat.exists_eq_add_of_le' hn
        have hdrop := bulk_drop m rest
        have hone : (hasBulk ch).toNat ≤ (hasBulk '\\').toNat := Bool.toNat_le _
        rw [hrest, List.drop_succ_cons, List.drop_succ_cons, bulk_cons, bulk_cons]
        omega
      split at h
      · cases h
      · split at h
        · cases h
        · split at h
          · exact further h (hescape (by decide) _)
          · exact further h (hescape (by decide) _)
    case h_5 e tail _ hrest =>
      split at h
      case h_1 ch _ =>
        refine further h ?_
        have hone : (hasBulk ch).toNat ≤ (hasBulk '\\').toNat := Bool.toNat_le _
        rw [hrest, List.drop_succ_cons, List.drop_one, List.tail_cons, bulk_cons, bulk_cons]
        omega
      case h_2 => cases h
    case h_6 ch tail _ _ _ _ hrest =>
      split at h
      · cases h
      · refine further h (Nat.le_of_eq ?_)
        rw [hrest, List.drop_one, List.tail_cons, bulk_cons]

theorem bulk_readString {c c' : Cursor} {s : String} (hq : c.rest.head? = some '"')
    (h : readString c = .ok (s, c')) : bulk s.toList + bulk c'.rest + 2 ≤ bulk c.rest := by
  obtain ⟨tail, hrest⟩ := List.head?_eq_some_iff.mp hq
  have hle := bulk_readText h
  rw [Cursor.rest_advance, hrest, List.drop_one, List.tail_cons, Field.bulk_nil,
    Nat.zero_add] at hle
  have hquote : (hasBulk '"').toNat = 1 := rfl
  rw [hrest, bulk_cons]
  omega

/-- Whether a value is neither null nor a text nor a list. -/
def isOther : Value → Bool
  | .null | .text _ | .list _ => false
  | _ => true

theorem readNumber_isOther {c c' : Cursor} {v : Value} (h : readNumber c = .ok (v, c')) :
    v.isOther = true := by
  grind [readNumber, isOther]

/-- What a value is read from: null, a text in quotes, a list in brackets, or something else. -/
inductive ReadFrom (fuel : Nat) (c c' : Cursor) : Value → Prop where
  | null (h : c.after? "null" = some c') : ReadFrom fuel c c' .null
  | text {s : String} (hq : c.rest.head? = some '"') (h : readString c = .ok (s, c')) :
    ReadFrom fuel c c' (.text s)
  | empty (hb : c.rest.head? = some '[') : ReadFrom fuel c c' (.list [])
  | items {vs : List Value} (hb : c.rest.head? = some '[')
      (h : readItems fuel (c.advance 1).skipBlanks = .ok (vs, c')) : ReadFrom fuel c c' (.list vs)
  | other {v : Value} (h : v.isOther = true) : ReadFrom fuel c c' v

theorem readFrom_of_readValue {fuel : Nat} {c c' : Cursor} {v : Value}
    (h : readValue (fuel + 1) c = .ok (v, c')) :
    ReadFrom fuel c c' v := by
  rw [readValue] at h
  split at h
  case h_1 tail hrest =>
    rcases hr : readString c with e | ⟨s, c₁⟩
    · rw [hr] at h
      cases h
    · rw [hr] at h
      cases h
      exact .text (by rw [hrest]; rfl) hr
  case h_2 tail hrest =>
    have hb : c.rest.head? = some '[' := by rw [hrest]; rfl
    simp only at h
    split at h
    · cases h
      exact .empty hb
    · rcases hr : readItems fuel (c.advance 1).skipBlanks with e | ⟨vs, c₁⟩
      · rw [hr] at h
        cases h
      · rw [hr] at h
        cases h
        exact .items hb hr
  case h_3 tail hrest =>
    simp only at h
    split at h
    · cases h
      exact .other rfl
    · rcases hr : readFields fuel (c.advance 1).skipBlanks [] with e | ⟨fs, c₁⟩
      · rw [hr] at h
        cases h
      · rw [hr] at h
        cases h
        exact .other rfl
  case h_4 =>
    split at h
    · cases h
      exact .null ‹_›
    · cases h
      exact .other rfl
    · cases h
      exact .other rfl
    · split at h
      · cases h
        exact .other rfl
      · cases h
        exact .other rfl
      · cases h
        exact .other rfl
      · exact .other (readNumber_isOther h)

theorem bulk_readValue_text {fuel : Nat} {c c' : Cursor} {s : String}
    (h : readValue fuel c = .ok (.text s, c')) :
    bulk s.toList + bulk c'.rest + 2 ≤ bulk c.rest := by
  cases fuel with
  | zero => cases h
  | succ fuel =>
    cases readFrom_of_readValue h with
    | text hq hr => exact bulk_readString hq hr
    | other ho => cases ho

/-- The items of a list are read one after the other. -/
theorem readItems_eq_ok {fuel : Nat} {c c' : Cursor} {vs : List Value}
    (h : readItems (fuel + 1) c = .ok (vs, c')) :
    ∃ v c₁, readValue fuel c = .ok (v, c₁) ∧
      (vs = [v] ∧ c₁.skipBlanks.rest.head? = some ']' ∧ c' = c₁.skipBlanks.advance 1 ∨
        ∃ rest, vs = v :: rest ∧ readItems fuel (c₁.skipBlanks.advance 1).skipBlanks =
          .ok (rest, c')) := by
  rw [readItems] at h
  rcases hv : readValue fuel c with e | ⟨v, c₁⟩
  · rw [hv] at h
    cases h
  · rw [hv] at h
    refine ⟨v, c₁, rfl, ?_⟩
    simp only [bind, Except.bind, pure, Except.pure] at h
    split at h
    case h_1 tail hrest =>
      cases h
      exact Or.inl ⟨rfl, by rw [hrest]; rfl, rfl⟩
    case h_2 tail hrest =>
      rcases hr : readItems fuel (c₁.skipBlanks.advance 1).skipBlanks with e | ⟨rest, c₂⟩
      · rw [hr] at h
        cases h
      · rw [hr] at h
        cases h
        exact Or.inr ⟨rest, rfl, rfl⟩
    case h_3 => cases h

/-- The bulk of texts that are read as the items of a list is passed, and the closing bracket. -/
theorem bulk_readItems {fuel : Nat} {c c' : Cursor} {texts : List String}
    (h : readItems fuel c = .ok (texts.map .text, c')) :
    bulkOf texts + bulk c'.rest + 1 ≤ bulk c.rest := by
  induction fuel generalizing c texts with
  | zero => cases h
  | succ fuel ih =>
    obtain ⟨v, c₁, hv, hrest⟩ := readItems_eq_ok h
    cases texts with
    | nil => rcases hrest with ⟨hnil, -⟩ | ⟨rest, hnil, -⟩ <;> cases hnil
    | cons s texts =>
      rw [Field.bulkOf_cons]
      rcases hrest with ⟨hone, hb, rfl⟩ | ⟨rest, hcons, hr⟩
      · obtain ⟨rfl, hnil⟩ := List.cons.inj hone
        obtain rfl : texts = [] := by simpa using hnil
        obtain ⟨tail, htail⟩ := List.head?_eq_some_iff.mp hb
        have hle := bulk_readValue_text hv
        have hbracket : (hasBulk ']').toNat = 1 := rfl
        rw [← bulk_skipBlanks c₁, htail, bulk_cons] at hle
        rw [Cursor.rest_advance, htail, List.drop_one, List.tail_cons, Field.bulkOf_nil]
        omega
      · obtain ⟨rfl, rfl⟩ := List.cons.inj hcons
        have hle := bulk_readValue_text hv
        have hitems := ih hr
        have hpassed := bulk_drop 1 c₁.skipBlanks.rest
        rw [bulk_skipBlanks, Cursor.rest_advance] at hitems
        rw [bulk_skipBlanks] at hpassed
        omega

/-- What is left behind a value is nothing but blanks. -/
theorem ofJson_eq_ok {text : String} {v : Value} (h : ofJson text = .ok v) :
    ∃ fuel c c', bulk c.rest = bulk text.toList ∧ readValue (fuel + 1) c = .ok (v, c') ∧
      bulk c'.rest = 0 := by
  simp only [ofJson, bind, Except.bind] at h
  split at h
  · cases h
  · rcases hv :
      readValue (2 * text.toList.length + 2) (Cursor.mk text.toList 0).skipBlanks with e | ⟨v', c'⟩
    · simp only [hv] at h
      cases h
    · simp only [pure, Except.pure, hv] at h
      split at h
      case isTrue hempty =>
        cases h
        refine ⟨_, _, c', bulk_skipBlanks _, hv, ?_⟩
        rw [← bulk_skipBlanks, List.isEmpty_iff.mp hempty]
        rfl
      case isFalse => cases h

theorem bulk_ofJson_text {text s : String} (h : ofJson text = .ok (.text s)) :
    bulk s.toList + 2 ≤ bulk text.toList := by
  obtain ⟨fuel, c, c', hc, hv, -⟩ := ofJson_eq_ok h
  have hle := bulk_readValue_text hv
  omega

theorem bulk_ofJson_list {text : String} {texts : List String}
    (h : ofJson text = .ok (.list (texts.map .text))) :
    bulkOf texts + 1 ≤ bulk text.toList := by
  obtain ⟨fuel, c, c', hc, hv, -⟩ := ofJson_eq_ok h
  have hbracket (hb : c.rest.head? = some '[') : bulk (c.rest.drop 1) + 1 = bulk c.rest := by
    obtain ⟨tail, htail⟩ := List.head?_eq_some_iff.mp hb
    rw [htail, List.drop_one, List.tail_cons, bulk_cons]
    rfl
  generalize hl : Value.list (texts.map .text) = v at hv
  cases readFrom_of_readValue hv with
  | null | text => cases hl
  | empty hb =>
    obtain rfl : texts = [] := by simpa using hl
    have := hbracket hb
    rw [Field.bulkOf_nil]
    omega
  | items hb hr =>
    obtain rfl := Value.list.inj hl
    have hle := bulk_readItems hr
    have := hbracket hb
    rw [bulk_skipBlanks, Cursor.rest_advance] at hle
    omega
  | other ho =>
    rw [← hl] at ho
    cases ho

/-- Null is read from nothing but the word for it. -/
theorem bulk_ofJson_null {text : String} (h : ofJson text = .ok .null) : bulk text.toList = 4 := by
  obtain ⟨fuel, c, c', hc, hv, hend⟩ := ofJson_eq_ok h
  cases readFrom_of_readValue hv with
  | null hword =>
    rw [Cursor.after?] at hword
    split at hword
    case isTrue hword' =>
      obtain ⟨rest, hrest⟩ := List.isPrefixOf_iff_prefix.mp hword'
      obtain rfl := Option.some.inj hword
      rw [Cursor.rest_advance, ← hrest, List.drop_left] at hend
      rw [← hc, ← hrest, Field.bulk_append, hend]
      rfl
    case isFalse => cases hword
  | other ho => cases ho

end HotReload.Value
