import NodeAdmission.Json.Document
import NodeAdmission.Proofs.Json.Token
/-!
# Parsing what a text spells

A text that spells a value is parsed to that value (`Json.parse?_of_spells`), so a text spells one
value at most. The tokens of a text are found first, with whatever may follow the text, and then
taken: a part of a document is parsed in the same way wherever it stands.

A numeral ends where its characters do. All texts are therefore followed by something that cannot
continue a numeral, and this is the one thing that a text must know of what comes after it.
-/

namespace NodeAdmission.Json

/-! ## Cutting into tokens -/

namespace Token

/-- The text is cut into the tokens. It has a character for each of them at least, so its length is
fuel enough. -/
def Lexes (text : List Char) (tokens : List Token) : Prop :=
  tokens.length ≤ text.length ∧
    ∀ before fuel, tokens.length ≤ fuel →
      scanFrom before fuel text = some (before.reverse ++ tokens)

theorem isSpace_iff {c : Char} :
    isSpace c = true ↔ c = ' ' ∨ c = '\t' ∨ c = '\n' ∨ c = '\r' := by
  simp [isSpace, or_assoc]

theorem delimited_blank_append {blank rest : List Char} (hblank : IsBlank blank)
    (hrest : Delimited rest) : Delimited (blank ++ rest) := by
  cases blank with
  | nil => exact hrest
  | cons c blank =>
    rintro _ ⟨⟩
    obtain rfl | rfl | rfl | rfl := hblank c List.mem_cons_self <;> decide

/-- No token starts with white space. -/
theorem isSpace_of_first? {c : Char} {cs rest : List Char} {token : Token}
    (h : first? (c :: cs) = some (token, rest)) : isSpace c = false := by
  by_contra hspace
  rw [Bool.not_eq_false, isSpace_iff] at hspace
  obtain rfl | rfl | rfl | rfl := hspace <;>
    simp [first?, numeral?, wholePart?, digitRun?] at h

namespace Lexes

theorem nil : Lexes [] [] := ⟨le_rfl, fun before fuel _ ↦ by simp [scanFrom]⟩

theorem blank_append {blank text : List Char} {tokens : List Token} (hblank : IsBlank blank)
    (h : Lexes text tokens) : Lexes (blank ++ text) tokens := by
  refine ⟨?_, fun before fuel hfuel ↦ ?_⟩
  · rw [List.length_append]
    exact h.1.trans (Nat.le_add_left _ _)
  · have hdrop : (blank ++ text).dropWhile isSpace = text.dropWhile isSpace :=
      List.dropWhile_append_of_pos fun c hc ↦ isSpace_iff.mpr (hblank c hc)
    rw [← h.2 before fuel hfuel]
    unfold scanFrom
    rw [hdrop]

theorem append {word rest : List Char} {token : Token} {tokens : List Token} (hne : word ≠ [])
    (hfirst : first? (word ++ rest) = some (token, rest)) (h : Lexes rest tokens) :
    Lexes (word ++ rest) (token :: tokens) := by
  obtain ⟨c, cs, rfl⟩ := List.exists_cons_of_ne_nil hne
  rw [List.cons_append] at hfirst ⊢
  have hdrop : (c :: (cs ++ rest)).dropWhile isSpace = c :: (cs ++ rest) :=
    List.dropWhile_cons_of_neg (by rw [isSpace_of_first? hfirst]; exact Bool.false_ne_true)
  refine ⟨?_, fun before fuel hfuel ↦ ?_⟩
  · have := h.1
    simp only [List.length_cons, List.length_append]
    omega
  · cases fuel with
    | zero => exact absurd hfuel (Nat.not_succ_le_zero _)
    | succ fuel =>
      have hrest := h.2 (token :: before) fuel (Nat.le_of_succ_le_succ hfuel)
      unfold scanFrom
      simp [hdrop, hfirst, hrest]

theorem scan?_eq {text : List Char} {tokens : List Token} (h : Lexes text tokens) :
    scan? text = some tokens := h.2 [] text.length h.1

end Lexes

/-- The text is cut into the tokens, whatever delimited text follows. -/
def Cuts (text : List Char) (tokens : List Token) : Prop :=
  ∀ rest more, Delimited rest → Lexes rest more → Lexes (text ++ rest) (tokens ++ more)

/-- The token that the character is by itself, if any. -/
def punctuation? (c : Char) : Option Token :=
  match c with
  | '[' => some openArray
  | ']' => some closeArray
  | '\x7b' => some openObject
  | '\x7d' => some closeObject
  | ',' => some comma
  | ':' => some colon
  | _ => none

theorem first?_punctuation {c : Char} {token : Token} (h : punctuation? c = some token)
    (rest : List Char) : first? (c :: rest) = some (token, rest) := by
  unfold punctuation? at h
  split at h <;> cases h <;> rfl

theorem delimited_punctuation {c : Char} {token : Token} (h : punctuation? c = some token)
    (rest : List Char) : Delimited (c :: rest) := by
  rintro _ ⟨⟩
  unfold punctuation? at h
  split at h <;> cases h <;> decide

namespace Cuts

theorem nil : Cuts [] [] := fun _ _ _ h ↦ h

theorem cons {c : Char} {token : Token} {text : List Char} {tokens : List Token}
    (hc : punctuation? c = some token) (h : Cuts text tokens) :
    Cuts (c :: text) (token :: tokens) := by
  intro rest more hrest hmore
  have hcons : Lexes ([c] ++ (text ++ rest)) (token :: (tokens ++ more)) :=
    (h rest more hrest hmore).append (List.cons_ne_nil _ _) (first?_punctuation hc _)
  exact hcons

/-- A mark of punctuation ends what stands before it. -/
theorem append {c : Char} {token : Token} {text text' : List Char} {tokens tokens' : List Token}
    (hc : punctuation? c = some token) (h : Cuts text tokens) (h' : Cuts (c :: text') tokens') :
    Cuts (text ++ c :: text') (tokens ++ tokens') := by
  intro rest more hrest hmore
  rw [List.append_assoc, List.append_assoc]
  exact h _ _ (delimited_punctuation hc _) (h' rest more hrest hmore)

theorem scalar {text : List Char} {v : Json} (hne : text ≠ [])
    (h : ∀ rest, Delimited rest → first? (text ++ rest) = some (.scalar v, rest)) :
    Cuts text [.scalar v] := fun rest _ hrest hmore ↦ hmore.append hne (h rest hrest)

theorem blank_append {blank text : List Char} {tokens : List Token} (hblank : IsBlank blank)
    (h : Cuts text tokens) : Cuts (blank ++ text) tokens := by
  intro rest more hrest hmore
  rw [List.append_assoc]
  exact (h _ _ hrest hmore).blank_append hblank

theorem append_blank {blank text : List Char} {tokens : List Token} (h : Cuts text tokens)
    (hblank : IsBlank blank) : Cuts (text ++ blank) tokens := by
  intro rest more hrest hmore
  rw [List.append_assoc]
  exact h _ _ (delimited_blank_append hblank hrest) (hmore.blank_append hblank)

end Cuts

/-- The text of a string is one token. -/
theorem cuts_string {name : Option (List Char)} {text : List Char}
    (h : Spells (.string name) text) : Cuts text [.scalar (.string name)] := by
  generalize hv : Json.string name = v at h
  induction h with
  | string hunits hcontent =>
    cases hv
    exact .scalar (by simp) fun rest _ ↦ first?_string hunits hcontent rest
  | padded hbefore _ hafter ih => exact ((ih hv).blank_append hbefore).append_blank hafter
  | _ => nomatch hv

end Token

/-! ## Taking tokens -/

namespace Progress

open Token

/-- The tokens of the text lead from `p` to `q`, whatever delimited text follows. -/
def Takes (p : Progress) (text : List Char) (q : Progress) : Prop :=
  ∃ tokens, Cuts text tokens ∧ tokens.foldlM take? p = some q

/-- Where the next token is not the end of an array, it is taken as the start of a value. -/
def ExpectsValue (p : Progress) (stack : List Open) : Prop :=
  ∀ token, token ≠ closeArray → p.take? token = takeValue? stack token

/-- Where the next token is not the end of an object, it is taken as the name of a member. -/
def ExpectsName (p : Progress) (stack : List Open)
    (members : List (Option (List Char) × Json)) : Prop :=
  ∀ token, token ≠ closeObject → p.take? token = takeName? stack members token

theorem expectsValue_value (stack : List Open) : ExpectsValue ⟨stack, .value⟩ stack :=
  fun _ _ ↦ rfl

theorem expectsValue_itemOrEnd (stack : List Open) :
    ExpectsValue ⟨stack, .itemOrEnd⟩ (.array [] :: stack) := by
  intro token htoken
  cases token with
  | closeArray => exact absurd rfl htoken
  | _ => rfl

theorem expectsName_name (stack : List Open) (members : List (Option (List Char) × Json)) :
    ExpectsName ⟨stack, .name members⟩ stack members := fun _ _ ↦ rfl

theorem expectsName_nameOrEnd (stack : List Open) : ExpectsName ⟨stack, .nameOrEnd⟩ stack [] := by
  intro token htoken
  cases token with
  | closeObject => exact absurd rfl htoken
  | _ => rfl

namespace Takes

variable {p q r : Progress} {text text' : List Char} {c : Char} {token : Token}

theorem nil (p : Progress) : Takes p [] p := ⟨[], .nil, rfl⟩

theorem cons (hc : punctuation? c = some token) (htake : p.take? token = some q)
    (h : Takes q text r) : Takes p (c :: text) r := by
  obtain ⟨tokens, hcuts, htokens⟩ := h
  refine ⟨token :: tokens, hcuts.cons hc, ?_⟩
  rw [List.foldlM_cons, htake]
  exact htokens

theorem append (hc : punctuation? c = some token) (h : Takes p text q)
    (h' : Takes q (c :: text') r) : Takes p (text ++ c :: text') r := by
  obtain ⟨tokens, hcuts, htokens⟩ := h
  obtain ⟨tokens', hcuts', htokens'⟩ := h'
  refine ⟨tokens ++ tokens', hcuts.append hc hcuts', ?_⟩
  rw [List.foldlM_append, htokens]
  exact htokens'

theorem blank_append (hblank : IsBlank text) (h : Takes p text' q) : Takes p (text ++ text') q := by
  obtain ⟨tokens, hcuts, htokens⟩ := h
  exact ⟨tokens, hcuts.blank_append hblank, htokens⟩

theorem append_blank (h : Takes p text q) (hblank : IsBlank text') : Takes p (text ++ text') q := by
  obtain ⟨tokens, hcuts, htokens⟩ := h
  exact ⟨tokens, hcuts.append_blank hblank, htokens⟩

theorem scalar {stack : List Open} {v : Json} (hp : p.ExpectsValue stack)
    (h : Cuts text [.scalar v]) : Takes p text ⟨stack, .continuation v⟩ := by
  refine ⟨_, h, ?_⟩
  have htake := hp (.scalar v) nofun
  rw [List.foldlM_cons, htake]
  rfl

theorem name {stack : List Open} {members : List (Option (List Char) × Json)}
    {name : Option (List Char)} (hp : p.ExpectsName stack members)
    (h : Spells (.string name) text) : Takes p text ⟨stack, .colon members name⟩ := by
  refine ⟨_, cuts_string h, ?_⟩
  have htake := hp (.scalar (.string name)) nofun
  rw [List.foldlM_cons, htake]
  rfl

/-- An array is taken item by item, and its end behind the last one. -/
theorem items {items : List (Json × List Char)} (hne : items ≠ [])
    (h : ∀ item ∈ items, ∀ {p : Progress} {stack : List Open}, p.ExpectsValue stack →
      Takes p item.2 ⟨stack, .continuation item.1⟩)
    {done : List Json} {stack : List Open} (hp : p.ExpectsValue (.array done :: stack)) :
    Takes p ([','].intercalate (items.map Prod.snd) ++ [']'])
      ⟨stack, .continuation (.array (done.reverse ++ items.map Prod.fst))⟩ := by
  -- The items taken already wait on the stack, so the induction is for any of them.
  induction items generalizing p done with
  | nil => exact absurd rfl hne
  | cons item items ih =>
    obtain ⟨hitem, hitems⟩ := List.forall_mem_cons.mp h
    have htaken := hitem hp
    cases items with
    | nil =>
      have hend : Takes ⟨.array done :: stack, .continuation item.1⟩ [']'] _ :=
        .cons rfl rfl (.nil _)
      simpa using htaken.append rfl hend
    | cons next items =>
      have hmore := ih (List.cons_ne_nil _ _) hitems
        (expectsValue_value (.array (item.1 :: done) :: stack))
      have hcomma : Takes ⟨.array done :: stack, .continuation item.1⟩ (',' :: _) _ :=
        .cons rfl rfl hmore
      simpa using htaken.append rfl hcomma

/-- An object is taken member by member, and its end behind the last one. -/
theorem members {members : List MemberText} (hne : members ≠ [])
    (hname : ∀ m ∈ members, Spells (.string m.name) m.nameText)
    (hvalue : ∀ m ∈ members, ∀ {p : Progress} {stack : List Open}, p.ExpectsValue stack →
      Takes p m.valueText ⟨stack, .continuation m.value⟩)
    {done : List (Option (List Char) × Json)} {stack : List Open} (hp : p.ExpectsName stack done) :
    Takes p ([','].intercalate (members.map MemberText.text) ++ ['\x7d'])
      ⟨stack, .continuation (.object (done.reverse ++ members.map MemberText.toMember))⟩ := by
  induction members generalizing p done with
  | nil => exact absurd rfl hne
  | cons m members ih =>
    obtain ⟨hmname, hname⟩ := List.forall_mem_cons.mp hname
    obtain ⟨hmvalue, hvalue⟩ := List.forall_mem_cons.mp hvalue
    have hv := hmvalue (expectsValue_value (.object done m.name :: stack))
    cases members with
    | nil =>
      have hend : Takes ⟨.object done m.name :: stack, .continuation m.value⟩ ['\x7d'] _ :=
        .cons rfl rfl (.nil _)
      have hcolon : Takes ⟨stack, .colon done m.name⟩ (':' :: _) _ :=
        .cons rfl rfl (hv.append rfl hend)
      simpa [MemberText.text, MemberText.toMember] using (name hp hmname).append rfl hcolon
    | cons next members =>
      have hmore := ih (List.cons_ne_nil _ _) hname hvalue
        (expectsName_name stack ((m.name, m.value) :: done))
      have hcomma : Takes ⟨.object done m.name :: stack, .continuation m.value⟩ (',' :: _) _ :=
        .cons rfl rfl hmore
      have hcolon : Takes ⟨stack, .colon done m.name⟩ (':' :: _) _ :=
        .cons rfl rfl (hv.append rfl hcomma)
      simpa [MemberText.text, MemberText.toMember] using (name hp hmname).append rfl hcolon

end Takes

/-- A text that spells a value is taken wherever a value is expected. -/
theorem takes_of_spells {v : Json} {text : List Char} (h : Spells v text) {p : Progress}
    {stack : List Open} (hp : p.ExpectsValue stack) :
    Takes p text ⟨stack, .continuation v⟩ := by
  induction h generalizing p stack with
  | null => exact .scalar hp (.scalar (by simp) fun rest _ ↦ by simp [first?, after?])
  | true => exact .scalar hp (.scalar (by simp) fun rest _ ↦ by simp [first?, after?])
  | false => exact .scalar hp (.scalar (by simp) fun rest _ ↦ by simp [first?, after?])
  | natural hrun =>
    exact .scalar hp (.scalar hrun.1.1 fun rest hrest ↦ first?_natural hrun hrest)
  | numeral hsign hwhole hfraction hexponent hplain =>
    exact .scalar hp (.scalar (by simp [hwhole.1.1]) fun rest hrest ↦
      first?_numeral hsign hwhole hfraction hexponent hplain hrest)
  | string hunits hcontent =>
    exact .scalar hp (.scalar (by simp) fun rest _ ↦ first?_string hunits hcontent rest)
  | emptyArray hblank =>
    have hend : Takes ⟨stack, .itemOrEnd⟩ [']'] _ := .cons rfl rfl (.nil _)
    exact .cons rfl (hp _ (by simp)) (hend.blank_append hblank)
  | array hne _ ih =>
    have hitems := Takes.items hne (fun item hitem _ _ ↦ ih item hitem)
      (expectsValue_itemOrEnd stack)
    exact .cons rfl (hp _ (by simp)) hitems
  | emptyObject hblank =>
    have hend : Takes ⟨stack, .nameOrEnd⟩ ['\x7d'] _ := .cons rfl rfl (.nil _)
    exact .cons rfl (hp _ (by simp)) (hend.blank_append hblank)
  | object hne hname _ _ ih =>
    have hmembers := Takes.members hne hname (fun m hm _ _ ↦ ih m hm)
      (expectsName_nameOrEnd stack)
    exact .cons rfl (hp _ (by simp)) hmembers
  | padded hbefore _ hafter ih => exact ((ih hp).blank_append hbefore).append_blank hafter

end Progress

/-- **A text is parsed to the value that it spells.** -/
theorem parse?_of_spells {v : Json} {text : List Char} (h : Spells v text) :
    parse? text = some v := by
  obtain ⟨tokens, hcuts, htokens⟩ := Progress.takes_of_spells h (Progress.expectsValue_value [])
  have hscan := (hcuts [] [] nofun .nil).scan?_eq
  rw [List.append_nil, List.append_nil] at hscan
  simp [parse?, hscan, Progress.start, htokens, Progress.finish?]

/-- A text spells one value at most. -/
theorem Spells.unique {v w : Json} {text : List Char} (hv : Spells v text) (hw : Spells w text) :
    v = w := Option.some.inj ((parse?_of_spells hv).symm.trans (parse?_of_spells hw))

end NodeAdmission.Json
