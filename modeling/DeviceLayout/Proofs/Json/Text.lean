import DeviceLayout.Json.Parser
import DeviceLayout.Proofs.Json.Spelling

/-!
# Text describes the value it was written from

Values are written from numerals and escaped texts (`Json.Spelled`), in a style whose white space
is blank (`Json.Style.Blank`). Reading such a text token by token leads from a point where a value
is awaited to the point behind that value, whatever containers are open and whatever delimiter
follows (`Json.Spelled.reads`). The induction is on the value; for a container it runs along the
entries, with the ones that are done kept in the innermost frame.

So the text of a value describes the value, in either style (`Json.parse?_toText`).
-/

namespace DeviceLayout.Json

/-! ## What is written -/

/-- A value whose numbers are numerals and whose strings are escaped texts. -/
inductive Spelled : Json → Prop
  | null : Spelled .null
  | bool (b : Bool) : Spelled (.bool b)
  | number (n : Nat) : Spelled (.number (numeral n))
  | string (text : List Char) : Spelled (.string (escape text))
  | array {items : List Json} (hitems : ∀ j ∈ items, Spelled j) : Spelled (.array items)
  | object {members : List (List Char × Json)} (hkeys : ∀ m ∈ members, ∃ text, m.1 = escape text)
    (hvalues : ∀ m ∈ members, Spelled m.2) : Spelled (.object members)

/-- The style puts nothing but white space between tokens. -/
structure Style.Blank (s : Style) : Prop where
  newline : ∀ depth, ∀ c ∈ s.newline depth, isSpace c = true
  gap : ∀ c ∈ s.gap, isSpace c = true

theorem Style.compact_blank : Style.compact.Blank where
  newline _ _ hc := nomatch hc
  gap _ hc := nomatch hc

theorem Style.pretty_blank : Style.pretty.Blank where
  newline depth c hc := by
    rcases List.mem_cons.mp hc with rfl | hc
    · rfl
    · rw [List.eq_of_mem_replicate hc]
      rfl
  gap c hc := by
    rw [List.mem_singleton.mp hc]
    rfl

/-! ## Reading token by token -/

/-- Where reading stands behind a text, if it gets there. -/
def readFrom (r : Reading) (text : List Char) : Option Reading :=
  (scan text).bind fun tokens => tokens.foldlM step r

variable {r r' : Reading} {stack : List Frame} {text rest : List Char}

/-- White space between tokens makes no difference. -/
theorem readFrom_spaces {spaces : List Char} (hspaces : ∀ c ∈ spaces, isSpace c = true) :
    readFrom r (spaces ++ text) = readFrom r text := by
  induction spaces with
  | nil => rfl
  | cons c more ih =>
    rw [List.cons_append, readFrom, scan, if_pos (hspaces c List.mem_cons_self)]
    exact ih fun d hd => hspaces d (List.mem_cons_of_mem c hd)

/-- Reading takes the token at the front. -/
theorem readFrom_token {c : Char} {t : Token} (hc : isSpace c = false)
    (hscan : scanToken (c :: text) = some (t, rest)) (hstep : step r t = some r') :
    readFrom r (c :: text) = readFrom r' rest :=
  foldlM_scan_cons (scan_of_scanToken hc hscan) hstep

/-- White space ends a value as well as what comes behind it. -/
theorem Delimited.spaces_append {spaces : List Char} (hspaces : ∀ c ∈ spaces, isSpace c = true)
    (h : Delimited text) : Delimited (spaces ++ text) := by
  cases spaces with
  | nil => exact h
  | cons c more =>
    exact .cons (by simp [isDelimiter, hspaces c List.mem_cons_self]) _

/-- Any token but a closing bracket is taken for the first one of a value. -/
def Awaits (r : Reading) (stack : List Frame) : Prop :=
  ∀ t, t ≠ .closeBracket → step r t = startValue stack t

/-- At the start of a text a value is awaited. -/
theorem awaits_value (stack : List Frame) : Awaits (.value, stack) stack :=
  fun _ _ => rfl

/-- Behind an opening bracket the first token of an item is awaited, or the closing bracket. -/
theorem awaits_firstItem (stack : List Frame) :
    Awaits (.firstItem, stack) (.items [] :: stack) := by
  intro t ht
  cases t <;> first | rfl | exact absurd rfl ht

/-- A key is taken for the key of the next member. -/
def AwaitsKey (r : Reading) (done : List (List Char × Json)) (stack : List Frame) : Prop :=
  ∀ key, step r (.string key) = some (.colon done key, stack)

/-- Reading the text of the value leads behind the value. -/
def Reads (s : Style) (j : Json) : Prop :=
  ∀ {depth : Nat} {r : Reading} {stack : List Frame} {rest : List Char}, Awaits r stack →
    Delimited rest → readFrom r (render s depth j ++ rest) = readFrom (.after j, stack) rest

/-- A string is one token, and reading goes on behind its closing quote. -/
theorem readFrom_renderString (text : List Char)
    (hstep : step r (.string (escape text)) = some r') :
    readFrom r (renderString (escape text) ++ rest) = readFrom r' rest := by
  have hscan : scanToken ('"' :: (escape text ++ '"' :: rest)) =
      some (.string (escape text), rest) := by
    simp [scanToken, scanString_escape]
  rw [renderString, List.cons_append, List.append_assoc]
  exact readFrom_token (by decide) hscan hstep

theorem isSpace_of_isDigitOf {c : Char} (hc : isDigitOf 10 c = true) : isSpace c = false := by
  cases hspace : isSpace c with
  | false => rfl
  | true =>
    have hnone : isDigitOf 10 c = false := isDigitOf_of_isDelimiter (by simp [isDelimiter, hspace])
    cases hc.symm.trans hnone

/-- A numeral is one token, up to what can follow a value. -/
theorem scanToken_numeral (n : Nat) (hrest : Delimited rest) :
    scanToken (numeral n ++ rest) = some (.number (numeral n), rest) := by
  have hnumber := scanNumber_numeral n hrest
  obtain ⟨d, ds, hcons, hd⟩ := exists_numeral_eq_cons n
  unfold scanToken
  split
  case h_11 => rw [hnumber]; rfl
  all_goals
    next heq =>
      rw [hcons] at heq
      exact absurd ((List.cons.inj heq).1 ▸ hd) (by decide)

/-! ## Containers -/

section

variable {s : Style}

/-- Behind an item there stands white space, a comma or a bracket, whatever the style. -/
theorem delimited_renderMoreItems (hs : s.Blank) (depth : Nat) (items : List Json)
    (rest : List Char) : Delimited (renderMoreItems s depth items ++ rest) := by
  cases items with
  | nil =>
    rw [renderMoreItems, List.append_assoc]
    exact .spaces_append (hs.newline depth) (.cons (by decide) _)
  | cons j more => exact .cons (by decide) _

theorem delimited_renderMoreMembers (hs : s.Blank) (depth : Nat)
    (members : List (List Char × Json)) (rest : List Char) :
    Delimited (renderMoreMembers s depth members ++ rest) := by
  cases members with
  | nil =>
    rw [renderMoreMembers, List.append_assoc]
    exact .spaces_append (hs.newline depth) (.cons (by decide) _)
  | cons m more => exact .cons (by decide) _

/-- The items behind one that is read go on top of it. -/
theorem readFrom_renderMoreItems (hs : s.Blank) {depth : Nat} :
    ∀ {items : List Json} {done : List Json} {j : Json}, (∀ i ∈ items, Reads s i) →
      readFrom (.after j, .items done :: stack) (renderMoreItems s depth items ++ rest) =
        readFrom (.after (.array ((j :: done).reverse ++ items)), stack) rest
  | [], done, j, _ => by
    rw [renderMoreItems, List.append_assoc, readFrom_spaces (hs.newline depth), List.append_nil]
    exact readFrom_token (by decide) rfl rfl
  | i :: more, done, j, hitems => by
    have hcomma : step (.after j, .items done :: stack) .comma =
      some (.value, .items (j :: done) :: stack) := rfl
    rw [renderMoreItems, List.cons_append, readFrom_token (by decide) rfl hcomma,
      List.append_assoc, List.append_assoc, readFrom_spaces (hs.newline (depth + 1)),
      hitems i List.mem_cons_self (awaits_value _) (delimited_renderMoreItems hs depth more rest),
      readFrom_renderMoreItems hs fun i hi => hitems i (List.mem_cons_of_mem _ hi)]
    simp

/-- The items of an array are read one after another. Those that are done are kept in the innermost
frame. -/
theorem readFrom_renderItems (hs : s.Blank) {depth : Nat} {items : List Json}
    (hitems : ∀ i ∈ items, Reads s i) :
    readFrom (.firstItem, stack) (renderItems s depth items ++ rest) =
      readFrom (.after (.array items), stack) rest := by
  cases items with
  | nil => exact readFrom_token (by decide) rfl rfl
  | cons i more =>
    rw [renderItems, List.append_assoc, List.append_assoc,
      readFrom_spaces (hs.newline (depth + 1)),
      hitems i List.mem_cons_self (awaits_firstItem stack)
        (delimited_renderMoreItems hs depth more rest),
      readFrom_renderMoreItems hs fun i hi => hitems i (List.mem_cons_of_mem _ hi)]
    simp

/-- A member is read where a key is awaited. -/
theorem readFrom_member (hs : s.Blank) {depth : Nat} {done : List (List Char × Json)}
    {text : List Char} {j : Json} (hr : AwaitsKey r done stack) (hj : Reads s j)
    (hrest : Delimited rest) :
    readFrom r (s.newline depth ++ renderString (escape text) ++ ':' :: s.gap ++
        render s depth j ++ rest) =
      readFrom (.after j, .members done (escape text) :: stack) rest := by
  have hcolon : step (.colon done (escape text), stack) .colon =
    some (.value, .members done (escape text) :: stack) := rfl
  simp only [List.append_assoc, List.cons_append]
  rw [readFrom_spaces (hs.newline depth), readFrom_renderString text (hr _),
    readFrom_token (by decide) rfl hcolon, readFrom_spaces hs.gap,
    hj (awaits_value _) hrest]

/-- The members behind one that is read go on top of it. -/
theorem readFrom_renderMoreMembers (hs : s.Blank) {depth : Nat} :
    ∀ {members : List (List Char × Json)} {done : List (List Char × Json)} {key : List Char}
      {j : Json}, (∀ m ∈ members, ∃ text, m.1 = escape text) → (∀ m ∈ members, Reads s m.2) →
      readFrom (.after j, .members done key :: stack)
          (renderMoreMembers s depth members ++ rest) =
        readFrom (.after (.object (((key, j) :: done).reverse ++ members)), stack) rest
  | [], done, key, j, _, _ => by
    rw [renderMoreMembers, List.append_assoc, readFrom_spaces (hs.newline depth), List.append_nil]
    exact readFrom_token (by decide) rfl rfl
  | (key', j') :: more, done, key, j, hkeys, hvalues => by
    obtain ⟨text, rfl⟩ : ∃ text, key' = escape text := hkeys _ List.mem_cons_self
    have hcomma : step (.after j, .members done key :: stack) .comma =
      some (.key ((key, j) :: done), stack) := rfl
    rw [renderMoreMembers, List.cons_append, readFrom_token (by decide) rfl hcomma,
      List.append_assoc, readFrom_member hs (fun _ => rfl) (hvalues _ List.mem_cons_self)
        (delimited_renderMoreMembers hs depth more rest),
      readFrom_renderMoreMembers hs (fun m hm => hkeys m (List.mem_cons_of_mem _ hm))
        fun m hm => hvalues m (List.mem_cons_of_mem _ hm)]
    simp

/-- The members of an object are read one after another, each key before its value. -/
theorem readFrom_renderMembers (hs : s.Blank) {depth : Nat} {members : List (List Char × Json)}
    (hkeys : ∀ m ∈ members, ∃ text, m.1 = escape text) (hvalues : ∀ m ∈ members, Reads s m.2) :
    readFrom (.firstKey, stack) (renderMembers s depth members ++ rest) =
      readFrom (.after (.object members), stack) rest := by
  match members with
  | [] => exact readFrom_token (by decide) rfl rfl
  | (key, j) :: more =>
    obtain ⟨text, rfl⟩ : ∃ text, key = escape text := hkeys _ List.mem_cons_self
    rw [renderMembers, List.append_assoc, readFrom_member hs (fun _ => rfl)
        (hvalues _ List.mem_cons_self) (delimited_renderMoreMembers hs depth more rest),
      readFrom_renderMoreMembers hs (fun m hm => hkeys m (List.mem_cons_of_mem _ hm))
        fun m hm => hvalues m (List.mem_cons_of_mem _ hm)]
    simp

/-! ## Values -/

/-- The text of a value is read as the value. -/
theorem Spelled.reads (hs : s.Blank) {j : Json} (hj : j.Spelled) : Reads s j := by
  induction hj with
  | null =>
    intro depth r stack rest hr _
    exact readFrom_token (by decide) rfl (hr _ (by decide))
  | bool b =>
    intro depth r stack rest hr _
    cases b <;> exact readFrom_token (by decide) rfl (hr _ (by decide))
  | number n =>
    intro depth r stack rest hr hrest
    have hscan := scanToken_numeral n hrest
    obtain ⟨d, ds, hcons, hd⟩ := exists_numeral_eq_cons n
    rw [render]
    rw [hcons] at hscan ⊢
    exact readFrom_token (isSpace_of_isDigitOf hd) hscan (hr _ (by simp))
  | string text =>
    intro depth r stack rest hr _
    exact readFrom_renderString text (hr _ (by simp))
  | array _ ih =>
    intro depth r stack rest hr _
    rw [render, List.cons_append, readFrom_token (by decide) rfl (hr _ (by decide))]
    exact readFrom_renderItems hs ih
  | object hkeys _ ih =>
    intro depth r stack rest hr _
    rw [render, List.cons_append, readFrom_token (by decide) rfl (hr _ (by decide))]
    exact readFrom_renderMembers hs hkeys ih

/-- The text of a value describes the value. -/
theorem parse?_toText (hs : s.Blank) {j : Json} (hj : j.Spelled) :
    parse? (toText s j) = some j := by
  have hread : readFrom (.value, []) (render s 0 j ++ []) = readFrom (.after j, []) [] :=
    hj.reads hs (awaits_value []) .nil
  rw [List.append_nil, readFrom, readFrom, scan_nil] at hread
  obtain ⟨tokens, hscan, htokens⟩ := Option.bind_eq_some_iff.mp hread
  rw [parse?, toText, String.toList_ofList, hscan, Option.bind_some, ofTokens?, htokens]

end

end DeviceLayout.Json
