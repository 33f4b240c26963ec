import CableSwig.CxxTypes.DeclaratorGrammar
import CableSwig.Lib.Fuel

/-!
# The grammar is unambiguous

A parser with bounded lookahead finds the tree behind the tokens of any declaration, so no
two trees yield the same tokens.
-/
namespace CableSwig.CxxTypes.DeclaratorParser

open CableSwig.CxxTypes.DeclaratorGrammar
open CableSwig.Lib.Fuel

/-- The qualifiers at the start, as many as there are. -/
def parseCv : List Token → List CvQualifier × List Token
  | [] => ([], [])
  | token :: ts =>
    if token = CvQualifier.const.token then ((parseCv ts).1.cons .const, (parseCv ts).2)
    else if token = CvQualifier.volatile.token then
      ((parseCv ts).1.cons .volatile, (parseCv ts).2)
    else ([], token :: ts)

/-- The words of one token. -/
def typeWords : List TypeWord :=
  [.unsigned, .signed, .short, .long, .int, .char, .wcharT, .bool, .float, .double, .void]

def complexWords : List TypeWord := [.complexFloat, .complexDouble, .complexLongDouble]

/-- The specifier at the start. A name that goes on with a scope belongs to a declarator. -/
def parseSpecifier (ts : List Token) : Option (Specifier × List Token) :=
  match ts with
  | [] => none
  | .name _ :: .scope :: _ => none
  | .name n :: rest => some (.named n, rest)
  | token :: rest =>
    if token = CvQualifier.const.token then some (.cv .const, rest)
    else if token = CvQualifier.volatile.token then some (.cv .volatile, rest)
    else match typeWords.find? fun w => w.tokens = [token] with
      | some w => some (.word w, rest)
      | none => (complexWords.find? fun w => w.tokens.isPrefixOf (token :: rest)).map
          fun w => (.word w, (token :: rest).drop w.tokens.length)

/-- The specifiers at the start, at most so many. -/
def parseSpecifiers : Nat → List Token → List Specifier × List Token
  | 0, ts => ([], ts)
  | fuel + 1, ts =>
    match parseSpecifier ts with
    | some (s, rest) =>
      ((parseSpecifiers fuel rest).1.cons s, (parseSpecifiers fuel rest).2)
    | none => ([], ts)

/-- Parameters start here, behind an opening parenthesis. -/
def startsParameters (ts : List Token) : Bool :=
  ts.head? = some (.punct ')') || (parseSpecifier ts).isSome

mutual

def parseDeclarator : Nat → List Token → Option (Declarator × List Token)
  | 0, _ => none
  | fuel + 1, ts =>
    match ts with
    | .punct '*' :: ts => do
      let (d, ts') ← parseDeclarator fuel (parseCv ts).2
      pure (.pointer (parseCv ts).1 d, ts')
    | .punct '&' :: ts => do
      let (d, ts') ← parseDeclarator fuel ts
      pure (.reference d, ts')
    | .name n :: .scope :: .punct '*' :: ts => do
      let (d, ts') ← parseDeclarator fuel (parseCv ts).2
      pure (.memberPointer n (parseCv ts).1 d, ts')
    | .punct '(' :: ts =>
      if startsParameters ts then parseSuffixes fuel .empty (.punct '(' :: ts)
      else do
        let (d, ts') ← parseDeclarator fuel ts
        match ts' with
        | .punct ')' :: ts' => parseSuffixes fuel (.group d) ts'
        | _ => none
    | .word x :: ts =>
      if IsIdentifier x then parseSuffixes fuel (.identifier x) ts
      else parseSuffixes fuel .empty (.word x :: ts)
    | ts => parseSuffixes fuel .empty ts

/-- What can follow a direct declarator. -/
def parseSuffixes : Nat → Declarator → List Token → Option (Declarator × List Token)
  | 0, _, _ => none
  | fuel + 1, d, ts =>
    match ts with
    | .punct '[' :: .word n :: .punct ']' :: ts =>
      parseSuffixes fuel (.array d (Nat.ofDigitChars 10 n 0)) ts
    | .punct '(' :: ts => do
      let (parameters, ts') ← parseParameters fuel ts
      parseSuffixes fuel (.function d parameters (parseCv ts').1) (parseCv ts').2
    | ts => some (d, ts)

/-- Parameters, with the parenthesis that closes them. -/
def parseParameters : Nat → List Token → Option (Parameters × List Token)
  | 0, _ => none
  | fuel + 1, ts =>
    if ts.head? = some (.punct ')') then some (.nil, ts.tail)
    else do
      let (d, ts') ← parseDeclarator fuel (parseSpecifiers ts.length ts).2
      match ts' with
      | .punct ')' :: ts' => some (.cons (parseSpecifiers ts.length ts).1 d .nil, ts')
      | .punct ',' :: ts' => do
        let (rest, ts') ← parseParameters fuel ts'
        some (.cons (parseSpecifiers ts.length ts).1 d rest, ts')
      | _ => none

end

section Specifiers

/-- No specifier starts here, and nothing that a name before could go on with. -/
structure Stops (ts : List Token) : Prop where
  parseSpecifier_eq : parseSpecifier ts = none
  head_ne : ts.head? ≠ some .scope

theorem stops_nil : Stops [] := ⟨rfl, by simp⟩

theorem stops_punct (c : Char) (ts : List Token) : Stops (.punct c :: ts) := ⟨rfl, by simp⟩

theorem stops_memberPointer (n : String) (ts : List Token) : Stops (.name n :: .scope :: ts) :=
  ⟨rfl, by simp⟩

theorem stops_identifier {x : List Char} (hx : IsIdentifier x) {ts : List Token}
    (hts : ts.head? ≠ some .scope) : Stops (.word x :: ts) := by
  obtain ⟨-, -, -, hkeyword⟩ := hx
  have hne : ∀ k ∈ keywords, Token.word x ≠ .word k := by
    intro k hk h
    exact hkeyword (Token.word.inj h ▸ hk)
  have hwords : ∀ w ∈ typeWords, w.tokens ≠ [.word x] := by
    have hall : ∀ w ∈ typeWords, ∃ k ∈ keywords, w.tokens = [.word k] := by decide
    intro w hw h
    obtain ⟨k, hk, heq⟩ := hall w hw
    exact hne k hk (List.cons.inj (h.symm.trans heq)).1
  have hcomplex : ∀ w ∈ complexWords, w.tokens.isPrefixOf (.word x :: ts) = false := by
    have hall : ∀ w ∈ complexWords, ∃ token rest, w.tokens = token :: .scope :: rest := by
      intro w hw
      simp only [complexWords, List.mem_cons, List.not_mem_nil, or_false] at hw
      obtain rfl | rfl | rfl := hw <;> exact ⟨_, _, rfl⟩
    intro w hw
    obtain ⟨token, rest, heq⟩ := hall w hw
    rw [heq, Bool.eq_false_iff]
    intro h
    cases ts with
    | nil => simp [List.isPrefixOf] at h
    | cons t ts =>
      simp only [List.isPrefixOf, Bool.and_eq_true, beq_iff_eq] at h
      exact hts (by rw [← h.2.1]; rfl)
  have hconst : Token.word x ≠ CvQualifier.const.token := hne _ (by decide)
  have hvolatile : Token.word x ≠ CvQualifier.volatile.token := hne _ (by decide)
  refine ⟨?_, by simp⟩
  have hnone : typeWords.find? (fun w => w.tokens = [.word x]) = none := by
    simpa using hwords
  have hnone' : complexWords.find? (fun w => w.tokens.isPrefixOf (.word x :: ts)) = none := by
    exact List.find?_eq_none.mpr fun w hw => by simp [hcomplex w hw]
  rw [parseSpecifier]
  · rw [if_neg hconst, if_neg hvolatile, hnone, hnone']
    rfl
  · intro n rest h
    cases h
  · intro n h
    cases h

theorem parseCv_eq {ts : List Token} (hts : Stops ts) (cv : List CvQualifier) :
    parseCv (cv.map CvQualifier.token ++ ts) = (cv, ts) := by
  induction cv with
  | nil =>
    cases ts with
    | nil => rfl
    | cons token ts =>
      have hconst : token ≠ CvQualifier.const.token := by
        rintro rfl
        have h := hts.parseSpecifier_eq
        cases h
      have hvolatile : token ≠ CvQualifier.volatile.token := by
        rintro rfl
        have h := hts.parseSpecifier_eq
        cases h
      rw [List.map_nil, List.nil_append, parseCv, if_neg hconst, if_neg hvolatile]
  | cons q cv ih =>
    rw [List.map_cons, List.cons_append, parseCv, ih]
    cases q with
    | const => rfl
    | volatile => rfl

theorem parseSpecifier_tokens (s : Specifier) {ts : List Token} (hts : ts.head? ≠ some .scope) :
    parseSpecifier (s.tokens ++ ts) = some (s, ts) := by
  cases s with
  | cv q => cases q <;> rfl
  | word w => cases w <;> rfl
  | named n =>
    cases ts with
    | nil => rfl
    | cons token ts =>
      cases token with
      | scope => exact absurd rfl hts
      | _ => rfl

theorem specifier_head (s : Specifier) (ts : List Token) :
    ∃ token rest, s.tokens ++ ts = token :: rest ∧ token ≠ .scope ∧ token ≠ .punct ')' := by
  cases s with
  | cv q => cases q <;> exact ⟨_, _, rfl, by decide, by decide⟩
  | word w => cases w <;> exact ⟨_, _, rfl, by decide, by decide⟩
  | named n => exact ⟨_, _, rfl, by simp, by simp⟩

theorem specifiers_head_ne {ts : List Token} (hts : Stops ts) (specifiers : List Specifier) :
    (specifiers.flatMap Specifier.tokens ++ ts).head? ≠ some .scope := by
  cases specifiers with
  | nil => exact hts.head_ne
  | cons s specifiers =>
    obtain ⟨token, rest, heq, hne, -⟩ :=
      specifier_head s (specifiers.flatMap Specifier.tokens ++ ts)
    rw [List.flatMap_cons, List.append_assoc, heq]
    simpa using hne

theorem parseSpecifiers_eq {ts : List Token} (hts : Stops ts) (specifiers : List Specifier) :
    ∀ fuel, specifiers.length ≤ fuel →
      parseSpecifiers fuel (specifiers.flatMap Specifier.tokens ++ ts) = (specifiers, ts) := by
  induction specifiers with
  | nil =>
    intro fuel _
    cases fuel with
    | zero => rfl
    | succ fuel => rw [List.flatMap_nil, List.nil_append, parseSpecifiers, hts.parseSpecifier_eq]
  | cons s specifiers ih =>
    intro fuel h
    obtain ⟨fuel, rfl⟩ : ∃ k, fuel = k + 1 := ⟨fuel - 1, by simp at h; omega⟩
    rw [List.flatMap_cons, List.append_assoc, parseSpecifiers,
      parseSpecifier_tokens s (specifiers_head_ne hts specifiers)]
    simp only [ih fuel (by simp at h; omega)]

theorem specifiers_length_le (specifiers : List Specifier) :
    specifiers.length ≤ (specifiers.flatMap Specifier.tokens).length := by
  induction specifiers with
  | nil => exact Nat.le_refl _
  | cons s specifiers ih =>
    obtain ⟨token, rest, heq, -, -⟩ := specifier_head s []
    have hlen := congrArg List.length heq
    simp only [List.append_nil, List.length_cons] at hlen
    rw [List.flatMap_cons, List.length_append, List.length_cons]
    omega

end Specifiers

section Declarators

theorem stops_tokens : ∀ (d : Declarator), d.Valid → ∀ {rest}, Stops rest →
    Stops (d.tokens ++ rest)
  | .empty, _, _, hrest => hrest
  | .identifier _, hd, _, hrest => stops_identifier hd hrest.head_ne
  | .group _, _, _, _ => stops_punct _ _
  | .pointer _ _, _, _, _ => stops_punct _ _
  | .reference _, _, _, _ => stops_punct _ _
  | .memberPointer _ _ _, _, _, _ => stops_memberPointer _ _
  | .array d _, hd, rest, _ => by
    rw [Declarator.tokens, List.append_assoc]
    exact stops_tokens d hd.2 (stops_punct _ _)
  | .function d _ _, hd, rest, _ => by
    rw [Declarator.tokens, List.append_assoc]
    exact stops_tokens d hd.2.1 (stops_punct _ _)

/-- No declarator starts with a closing parenthesis. -/
theorem tokens_head_ne : ∀ (d : Declarator) (rest : List Token),
    (d = .empty → rest.head? ≠ some (.punct ')')) →
    (d.tokens ++ rest).head? ≠ some (.punct ')')
  | .empty, _, hrest => hrest rfl
  | .identifier _, _, _ => by simp [Declarator.tokens]
  | .group _, _, _ => by simp [Declarator.tokens]
  | .pointer _ _, _, _ => by simp [Declarator.tokens]
  | .reference _, _, _ => by simp [Declarator.tokens]
  | .memberPointer _ _ _, _, _ => by simp [Declarator.tokens]
  | .array d _, _, _ => by
    rw [Declarator.tokens, List.append_assoc]
    exact tokens_head_ne d _ fun _ => by simp
  | .function d _ _, _, _ => by
    rw [Declarator.tokens, List.append_assoc]
    exact tokens_head_ne d _ fun _ => by simp

/-- The text behind a declarator: nothing, or what closes or separates parameters. -/
inductive Follow : List Token → Prop
  | nil : Follow []
  | closing (ts : List Token) : Follow (.punct ')' :: ts)
  | comma (ts : List Token) : Follow (.punct ',' :: ts)

theorem Follow.stops {ts : List Token} (h : Follow ts) : Stops ts := by
  cases h with
  | nil => exact stops_nil
  | closing ts => exact stops_punct _ _
  | comma ts => exact stops_punct _ _

/-- Only suffixes can start here. -/
def Open (ts : List Token) : Prop :=
  ∀ fuel, parseDeclarator (fuel + 1) ts = parseSuffixes fuel .empty ts

theorem Follow.open {ts : List Token} (h : Follow ts) : Open ts := by
  cases h <;> intro fuel <;> rw [parseDeclarator] <;> simp

theorem Follow.suffixes {ts : List Token} (h : Follow ts) (d : Declarator) :
    Enough fun fuel => parseSuffixes fuel d ts = some (d, ts) := by
  refine Enough.of_succ fun fuel => ?_
  cases h <;> simp [parseSuffixes]

theorem open_bracket (ts : List Token) : Open (.punct '[' :: ts) := by
  intro fuel
  rw [parseDeclarator] <;> simp

theorem open_parenthesis {ts : List Token} (h : startsParameters ts = true) :
    Open (.punct '(' :: ts) := by
  intro fuel
  rw [parseDeclarator, if_pos h]

theorem startsParameters_tokens (parameters : Parameters) (hvalid : parameters.Valid)
    (ts : List Token) : startsParameters (parameters.tokens ++ .punct ')' :: ts) = true := by
  cases parameters with
  | nil => rfl
  | cons specifiers d rest =>
    obtain ⟨hne, hd, -⟩ := hvalid
    obtain ⟨s, specifiers, rfl⟩ := List.exists_cons_of_ne_nil hne
    have hstops : Stops (d.tokens ++ (rest.moreTokens ++ .punct ')' :: ts)) := by
      apply stops_tokens d hd
      cases rest with
      | nil => exact stops_punct _ _
      | cons _ _ _ => exact stops_punct _ _
    have hparse := parseSpecifier_tokens s (specifiers_head_ne hstops specifiers)
    rw [startsParameters]
    simp only [Parameters.tokens, List.flatMap_cons, List.append_assoc, hparse]
    simp

theorem not_startsParameters {d : Declarator} (hne : d ≠ .empty) (hd : d.Valid)
    (ts : List Token) : startsParameters (d.tokens ++ .punct ')' :: ts) = false := by
  have hhead := tokens_head_ne d (.punct ')' :: ts) fun h => absurd h hne
  have hstops := stops_tokens d hd (stops_punct ')' ts)
  rw [startsParameters, decide_eq_false hhead, hstops.parseSpecifier_eq]
  rfl

/-- A direct declarator is parsed up to its end, where suffixes can go on. -/
def ParsesDirect (d : Declarator) : Prop :=
  d.Valid → d.IsDirect → ∀ rest r, (d = .empty → Open rest) → Stops rest →
    (Enough fun fuel => parseSuffixes fuel d rest = some r) →
    Enough fun fuel => parseDeclarator fuel (d.tokens ++ rest) = some r

def Parses (d : Declarator) : Prop :=
  d.Valid → ∀ rest, Follow rest →
    Enough fun fuel => parseDeclarator fuel (d.tokens ++ rest) = some (d, rest)

theorem ParsesDirect.parses {d : Declarator} (h : ParsesDirect d) (hd : d.IsDirect) :
    Parses d := by
  intro hvalid rest hrest
  exact h hvalid hd rest (d, rest) (fun _ => hrest.open) hrest.stops (hrest.suffixes d)

def ParsesParameters (parameters : Parameters) : Prop :=
  parameters.Valid → ∀ rest,
    Enough fun fuel => parseParameters fuel (parameters.tokens ++ .punct ')' :: rest) =
      some (parameters, rest)

theorem parameter_start {specifiers : List Specifier} (hne : specifiers ≠ []) {d : Declarator}
    (hd : d.Valid) {rest : List Token} (hrest : Follow rest) :
    let ts := specifiers.flatMap Specifier.tokens ++ (d.tokens ++ rest)
    ts.head? ≠ some (.punct ')') ∧
      parseSpecifiers ts.length ts = (specifiers, d.tokens ++ rest) := by
  have hstops := stops_tokens d hd hrest.stops
  refine ⟨?_, ?_⟩
  · obtain ⟨s, specifiers, rfl⟩ := List.exists_cons_of_ne_nil hne
    obtain ⟨token, more, heq, -, hclosing⟩ :=
      specifier_head s (specifiers.flatMap Specifier.tokens ++ (d.tokens ++ rest))
    rw [List.flatMap_cons, List.append_assoc, heq]
    simpa using hclosing
  · refine parseSpecifiers_eq hstops specifiers _ ?_
    have := specifiers_length_le specifiers
    rw [List.length_append]
    omega

mutual

theorem parses : ∀ d : Declarator, ParsesDirect d ∧ Parses d
  | .empty => by
    have hdirect : ParsesDirect .empty := by
      intro _ _ rest r hopen _ hsuffixes
      exact hsuffixes.step fun fuel h => by
        rw [Declarator.tokens, List.nil_append, hopen rfl]
        exact h
    exact ⟨hdirect, hdirect.parses trivial⟩
  | .identifier x => by
    have hdirect : ParsesDirect (.identifier x) := by
      intro hvalid _ rest r _ _ hsuffixes
      exact hsuffixes.step fun fuel h => by
        rw [Declarator.tokens, List.singleton_append, parseDeclarator,
          if_pos (show IsIdentifier x from hvalid)]
        exact h
    exact ⟨hdirect, hdirect.parses trivial⟩
  | .group d => by
    have hdirect : ParsesDirect (.group d) := by
      intro hvalid _ rest r _ _ hsuffixes
      have hinner := (parses d).2 hvalid.2 _ (.closing rest)
      refine (hinner.and hsuffixes).step fun fuel ⟨hd, hr⟩ => ?_
      have hstart := not_startsParameters hvalid.1 hvalid.2 rest
      simp only [Declarator.tokens, List.cons_append, List.append_assoc, List.nil_append]
      rw [parseDeclarator, if_neg (by simp [hstart]), hd]
      exact hr
    exact ⟨hdirect, hdirect.parses trivial⟩
  | .pointer cv d => by
    refine ⟨fun _ h => h.elim, fun hvalid rest hrest => ?_⟩
    refine ((parses d).2 hvalid rest hrest).step fun fuel h => ?_
    have hcv := parseCv_eq (stops_tokens d hvalid hrest.stops) cv
    rw [Declarator.tokens, List.cons_append, List.append_assoc, parseDeclarator, hcv, h]
    rfl
  | .reference d => by
    refine ⟨fun _ h => h.elim, fun hvalid rest hrest => ?_⟩
    refine ((parses d).2 hvalid rest hrest).step fun fuel h => ?_
    rw [Declarator.tokens, List.cons_append, parseDeclarator, h]
    rfl
  | .memberPointer n cv d => by
    refine ⟨fun _ h => h.elim, fun hvalid rest hrest => ?_⟩
    refine ((parses d).2 hvalid rest hrest).step fun fuel h => ?_
    have hcv := parseCv_eq (stops_tokens d hvalid hrest.stops) cv
    simp only [Declarator.tokens, List.cons_append, List.append_assoc]
    rw [parseDeclarator, hcv, h]
    rfl
  | .array d length => by
    have hdirect : ParsesDirect (.array d length) := by
      intro hvalid _ rest r _ _ hsuffixes
      rw [Declarator.tokens, List.append_assoc]
      refine (parses d).1 hvalid.2 hvalid.1 _ r (fun _ => open_bracket _) (stops_punct _ _) ?_
      refine hsuffixes.step fun fuel h => ?_
      simp only [List.cons_append, List.nil_append]
      rw [parseSuffixes, Nat.ofDigitChars_ten_toDigits]
      exact h
    exact ⟨hdirect, hdirect.parses trivial⟩
  | .function d parameters cv => by
    have hdirect : ParsesDirect (.function d parameters cv) := by
      intro hvalid _ rest r _ hstops hsuffixes
      obtain ⟨hd, hvalid, hparameters⟩ := hvalid
      simp only [Declarator.tokens, List.append_assoc, List.cons_append]
      refine (parses d).1 hvalid hd _ r
        (fun _ => open_parenthesis (startsParameters_tokens parameters hparameters _))
        (stops_punct _ _) ?_
      have hinner := parses_parameters parameters hparameters
        (cv.map CvQualifier.token ++ rest)
      refine (hinner.and hsuffixes).step fun fuel ⟨hp, hr⟩ => ?_
      rw [parseSuffixes, hp]
      simp only [Option.bind_eq_bind, Option.bind_some, parseCv_eq hstops cv]
      exact hr
    exact ⟨hdirect, hdirect.parses trivial⟩

theorem parses_parameters : ∀ parameters : Parameters, ParsesParameters parameters
  | .nil => by
    intro _ rest
    refine Enough.of_succ fun fuel => ?_
    simp [Parameters.tokens, parseParameters]
  | .cons specifiers d .nil => by
    intro hvalid rest
    obtain ⟨hne, hd, -⟩ := hvalid
    obtain ⟨hhead, hspecifiers⟩ := parameter_start hne hd (.closing rest)
    refine ((parses d).2 hd _ (.closing rest)).step fun fuel h => ?_
    simp only [Parameters.tokens, Parameters.moreTokens, List.append_nil, List.append_assoc]
    rw [parseParameters, if_neg hhead, hspecifiers, h]
    rfl
  | .cons specifiers d (.cons specifiers' d' more) => by
    intro hvalid rest
    obtain ⟨hne, hd, hmore⟩ := hvalid
    have hlater := parses_parameters (.cons specifiers' d' more) hmore rest
    have hfollow := Follow.comma
      ((Parameters.cons specifiers' d' more).tokens ++ .punct ')' :: rest)
    obtain ⟨hhead, hspecifiers⟩ := parameter_start hne hd hfollow
    have hinner := (parses d).2 hd _ hfollow
    refine (hinner.and hlater).step fun fuel ⟨hfirst, hr⟩ => ?_
    have htokens : (Parameters.cons specifiers d (.cons specifiers' d' more)).tokens ++
        Token.punct ')' :: rest = specifiers.flatMap Specifier.tokens ++ (d.tokens ++
          .punct ',' :: ((Parameters.cons specifiers' d' more).tokens ++ .punct ')' :: rest)) := by
      simp [Parameters.tokens, Parameters.moreTokens]
    rw [htokens, parseParameters, if_neg hhead, hspecifiers, hfirst]
    simp only [Option.bind_eq_bind, Option.bind_some, hr]

end

theorem tokens_injective {specifiers specifiers' : List Specifier} {d d' : Declarator}
    (hd : d.Valid) (hd' : d'.Valid)
    (h : specifiers.flatMap Specifier.tokens ++ d.tokens =
      specifiers'.flatMap Specifier.tokens ++ d'.tokens) :
    specifiers = specifiers' ∧ d = d' := by
  have hparse : ∀ (specifiers : List Specifier) (d : Declarator), d.Valid →
      parseSpecifiers (specifiers.flatMap Specifier.tokens ++ d.tokens).length
        (specifiers.flatMap Specifier.tokens ++ d.tokens) = (specifiers, d.tokens) := by
    intro specifiers d hd
    have hstops := stops_tokens d hd stops_nil
    rw [List.append_nil] at hstops
    refine parseSpecifiers_eq hstops specifiers _ ?_
    have := specifiers_length_le specifiers
    rw [List.length_append]
    omega
  have hleft := hparse specifiers d hd
  rw [h, hparse specifiers' d' hd'] at hleft
  obtain ⟨hspecifiers, htokens⟩ := Prod.mk.inj hleft
  obtain ⟨fuel, hm, hn⟩ := (((parses d).2 hd [] .nil).and ((parses d').2 hd' [] .nil)).exists_fuel
  rw [← htokens, hn] at hm
  exact ⟨hspecifiers.symm, (Prod.mk.inj (Option.some.inj hm)).1.symm⟩

end Declarators

end CableSwig.CxxTypes.DeclaratorParser
