import Webserver.Config.LocationWords

namespace Webserver
namespace Config

/-!
# The locations of a parsed tree

What `ExtractLocation` is meant to find can be read off the parsed tree.  The
loop over the characters knows no blocks: the flag for being inside a brace is
cleared by every closing brace, the last path stays in force after its block, and
an index name is added to the one before.  On a tree where none of this matters,
the loop finds what the tree says.
-/

/-! ## Reading the tree -/

/-- The path and the handler of `location P H`, where the path begins with a
slash. -/
def locationOf : List Text -> Option (Text × Text)
  | [keyword, path, handler] =>
      if keyword = "location".toList ∧ path.head? = some '/' then some (path, handler) else none
  | _ => none

/-- Enter `location P H`. -/
def enterLocation (info : LocationInfo) (words : List Text) : LocationInfo :=
  match locationOf words with
  | some (path, handler) =>
      { info with pathToHandler := info.pathToHandler.assign path handler }
  | none => info

/-- Enter `root R` or `index I ..` for a path. -/
def enterDirective (path : Text) (info : LocationInfo) : List Text -> LocationInfo
  | keyword :: argument :: more =>
      if keyword = "root".toList ∧ more = [] then
        { info with pathToRoot := info.pathToRoot.assign path argument }
      else if keyword = "index".toList then
        { info with pathToIndex := info.pathToIndex.assign path argument }
      else info
  | _ => info

/-- A simple statement in the block of a location, or elsewhere. -/
def enterStatement (within : Option Text) (info : LocationInfo) (words : List Text) :
    LocationInfo :=
  match within with
  | some path => enterDirective path info words
  | none => info

namespace NginxConfig

/-- The locations of all statements in order.  `within` is the path of the
location whose block the statements are directly in. -/
def locations : NginxConfig -> Option Text -> LocationInfo -> LocationInfo
  | empty, _, info => info
  | simple words next, within, info => next.locations within (enterStatement within info words)
  | block words child next, within, info =>
      next.locations within
        (child.locations ((locationOf words).map Prod.fst) (enterLocation info words))

end NginxConfig

/-! ## Plain trees -/

/-- `root R` or `index I ..`. -/
def Directive (words : List Text) : Prop :=
  (Exists fun dir : Text => words = ["root".toList, dir]) ∨
  Exists fun index : Text => Exists fun others : List Text => words = "index".toList :: index :: others

/-- A word that `isspace` does not divide. -/
def Undivided (word : Text) : Prop := forall c, c ∈ word -> isspace c = false

instance (word : Text) : Decidable (Undivided word) :=
  List.decidableBAll (fun c => isspace c = false) word

/-- A simple statement.  If the loop hears directives and the statement is directly
in the block of a location, it may be a directive.  Otherwise it is none and all its
words are inert. -/
def PlainStatement (within : Option Text) (heard : Bool) (words : List Text) : Prop :=
  (heard = true ∧ within ≠ none ∧
    ((Exists fun dir : Text => words = ["root".toList, dir] ∧ Undivided dir) ∨
      Exists fun index : Text => Exists fun others : List Text =>
        words = "index".toList :: index :: others ∧ Undivided index ∧
        forall word, word ∈ others -> Inert true word)) ∨
  (forall word, word ∈ words -> Inert heard word) ∧ (within ≠ none -> ¬Directive words)

/-- The words in front of a block: `location P H`, where the handler is a word of
letters and digits, or inert words. -/
def PlainHeader (heard : Bool) (words : List Text) : Prop :=
  (Exists fun path : Text => Exists fun handler : Text =>
    words = ["location".toList, '/' :: path, handler] ∧ Undivided path ∧
    forall c, c ∈ handler -> c.isAlphanum = true) ∨
  forall word, word ∈ words -> Inert heard word

namespace NginxConfig

def hasLocation : NginxConfig -> Bool
  | empty => false
  | simple _ next => next.hasLocation
  | block words child next =>
      (locationOf words).isSome || child.hasLocation || next.hasLocation

/-- Keywords stand only where they have their meaning.  `inside` says whether the
last brace was an opening one, and `seen` whether there was a location before. -/
def Plain : NginxConfig -> Option Text -> Bool -> Bool -> Prop
  | empty, _, _, _ => True
  | simple words next, within, inside, seen =>
      PlainStatement within (inside && seen) words ∧ next.Plain within inside seen
  | block words child next, within, inside, seen =>
      PlainHeader (inside && seen) words ∧
      child.Plain ((locationOf words).map Prod.fst) true (seen || (locationOf words).isSome) ∧
      next.Plain within false (seen || (locationOf words).isSome || child.hasLocation)

end NginxConfig

/-- Whether a statement enters an index, as a number. -/
def indexCount (within : Option Text) (words : List Text) : Nat :=
  if within.isSome = true ∧ words.head? = some "index".toList then 1 else 0

namespace NginxConfig

/-- The number of index statements directly in the blocks of locations. -/
def indexes : NginxConfig -> Option Text -> Nat
  | empty, _ => 0
  | simple words next, within => indexCount within words + next.indexes within
  | block words child next, within =>
      child.indexes ((locationOf words).map Prod.fst) + next.indexes within

end NginxConfig

theorem enterDirective_of_not {words : List Text} (noDirective : ¬Directive words) (path : Text)
    (info : LocationInfo) : enterDirective path info words = info := by
  match words with
  | [] => rfl
  | [_] => rfl
  | keyword :: argument :: more =>
      have notRoot : ¬(keyword = "root".toList ∧ more = []) := by
        rintro ⟨rfl, rfl⟩
        exact noDirective (Or.inl ⟨argument, rfl⟩)
      have notIndex : keyword ≠ "index".toList := by
        rintro rfl
        exact noDirective (Or.inr ⟨argument, more, rfl⟩)
      rw [enterDirective, if_neg notRoot, if_neg notIndex]

theorem locationOf_inert {heard : Bool} {words : List Text}
    (inert : forall word, word ∈ words -> Inert heard word) : locationOf words = none := by
  match words with
  | [] => rfl
  | [_] => rfl
  | [_, _] => rfl
  | [keyword, path, handler] =>
      have notLocation : keyword ≠ "location".toList := by
        rintro rfl
        exact (inert _ List.mem_cons_self).1 (Or.inl List.suffix_rfl)
      rw [locationOf, if_neg (fun isLocation => notLocation isLocation.1)]
  | _ :: _ :: _ :: _ :: _ => rfl

/-! ## Maps that agree -/

namespace LocationInfo

/-- The maps agree, that of the indexes in case `exact` holds. -/
structure Agree (exact : Prop) (info info' : LocationInfo) : Prop where
  handlers : info.pathToHandler = info'.pathToHandler
  roots : info.pathToRoot = info'.pathToRoot
  indexes : exact -> info.pathToIndex = info'.pathToIndex

variable {exact : Prop} {info info' : LocationInfo}

theorem Agree.enterLocation (agree : Agree exact info info') (words : List Text) :
    Agree exact (enterLocation info words) (enterLocation info' words) := by
  unfold Config.enterLocation
  cases locationOf words with
  | none => exact agree
  | some location =>
      refine ⟨?_, agree.roots, agree.indexes⟩
      dsimp only
      rw [agree.handlers]

theorem Agree.enterRoot (agree : Agree exact info info') (path dir : Text) :
    Agree exact { info with pathToRoot := info.pathToRoot.assign path dir }
      (enterDirective path info' ["root".toList, dir]) := by
  refine ⟨agree.handlers, ?_, agree.indexes⟩
  rw [agree.roots]
  rfl

theorem Agree.enterIndex (agree : Agree exact info info') (path : Text) {index name : Text}
    (own : exact -> name = index) (others : List Text) :
    Agree exact { info with pathToIndex := info.pathToIndex.assign path name }
      (enterDirective path info' ("index".toList :: index :: others)) := by
  refine ⟨agree.handlers, agree.roots, fun isExact => ?_⟩
  rw [agree.indexes isExact, own isExact]
  rfl

end LocationInfo

/-! ## The loop on a plain tree -/

namespace LocationScan

/-- The variables of the loop fit the place of the next statement. -/
structure Stands (within : Option Text) (inside seen : Bool) (scan : LocationScan) : Prop where
  settled : scan.validLocation = false
  brace : scan.insideBrace = inside
  unseen : seen = false -> scan.pathName = []
  path : forall path : Text, within = some path -> inside = true ->
    scan.pathName = path ∧ path ≠ []

theorem Stands.same {within : Option Text} {inside seen : Bool} {scan scan' : LocationScan}
    (stands : scan.Stands within inside seen) (same : Same scan scan') :
    scan'.Stands within inside seen := by
  refine ⟨same.2.1.trans stands.settled, same.1.trans stands.brace, ?_, ?_⟩
  · rw [same.2.2.1]
    exact stands.unseen
  · rw [same.2.2.1]
    exact stands.path

theorem Stands.deaf {within : Option Text} {inside seen : Bool} {scan : LocationScan}
    (stands : scan.Stands within inside seen) : (inside && seen) = false -> ¬scan.Live := by
  intro notHeard live
  rcases Bool.and_eq_false_iff.mp notHeard with notInside | notSeen
  · rw [← stands.brace, live.1] at notInside
    cases notInside
  · exact live.2 (stands.unseen notSeen)

/-- Where a directive is heard, the loop is live and has the path of the location. -/
theorem Stands.heard {path : Text} {inside seen : Bool} {scan : LocationScan}
    (stands : scan.Stands (some path) inside seen) (isHeard : (inside && seen) = true) :
    scan.Live ∧ scan.pathName = path := by
  rcases (Bool.and_eq_true_iff).mp isHeard with ⟨isInside, _⟩
  rcases stands.path path rfl isInside with ⟨pathIs, named⟩
  exact ⟨⟨stands.brace.trans isInside, pathIs ▸ named⟩, pathIs⟩

/-- The index name is empty in front of the only index statement to come, in case
`exact` holds. -/
def Fresh (exact : Prop) (scan : LocationScan) (count : Nat) : Prop :=
  exact -> scan.indexName = [] ∧ count ≤ 1 ∨ count = 0

theorem Fresh.first {exact : Prop} {scan : LocationScan} {first later : Nat}
    (fresh : Fresh exact scan (first + later)) : Fresh exact scan first :=
  fun isExact => (fresh isExact).imp (And.imp_right (fun few => by omega)) (fun none => by omega)

theorem Fresh.later {exact : Prop} {scan scan' : LocationScan} {first later : Nat}
    (fresh : Fresh exact scan (first + later))
    (kept : first = 0 -> scan'.indexName = scan.indexName) : Fresh exact scan' later := by
  intro isExact
  rcases fresh isExact with ⟨noIndex, few⟩ | none
  · by_cases isFirst : first = 0
    · exact Or.inl ⟨(kept isFirst).trans noIndex, by omega⟩
    · exact Or.inr (by omega)
  · exact Or.inr (by omega)

/-- One simple statement of a plain tree. -/
theorem leads_simple {within : Option Text} {inside seen : Bool} {words : List Text}
    (plain : PlainStatement within (inside && seen) words) {scan : LocationScan}
    (stands : scan.Stands within inside seen) {exact : Prop}
    (fresh : Fresh exact scan (indexCount within words)) {info : LocationInfo}
    (agree : scan.locInfo.Agree exact info) {text : Text} (ordinary : Ordinary text)
    {others : List Token}
    (tokensAre : tokens text = words.map (Token.mk .normal) ++ ⟨.statementEnd, [';']⟩ :: others)
    (goesOn : within ≠ none -> others ≠ [⟨.eof, []⟩]) :
    Exists fun text' : Text => Exists fun scan' : LocationScan =>
      Ordinary text' ∧ tokens text' = others ∧ scan'.Stands within inside seen ∧
      scan'.locInfo.Agree exact (enterStatement within info words) ∧
      (indexCount within words = 0 -> scan'.indexName = scan.indexName) ∧
      Leads text scan text' scan' := by
  rcases plain with ⟨isHeard, inLocation, directive⟩ | ⟨inert, noDirective⟩
  · rcases Option.ne_none_iff_exists'.mp inLocation with ⟨path, rfl⟩
    rcases stands.heard isHeard with ⟨live, rfl⟩
    rcases directive with ⟨dir, rfl, undivided⟩ | ⟨index, more, rfl, undivided, inert⟩
    · rcases leads_rootStatement live ordinary undivided tokensAre (goesOn inLocation) with
        ⟨text', ordinary', othersAre, passed⟩
      exact ⟨text', scan.atRoot dir, ordinary', othersAre,
        ⟨stands.settled, stands.brace, stands.unseen, stands.path⟩,
        agree.enterRoot scan.pathName dir, fun _ => rfl, passed⟩
    · have counted : indexCount (some scan.pathName) ("index".toList :: index :: more) = 1 := rfl
      have noIndex : exact -> scan.indexName = [] :=
        fun isExact => ((fresh isExact).resolve_right (by rw [counted]; decide)).1
      rcases leads_indexStatement stands.settled live ordinary undivided inert tokensAre with
        ⟨text', name, scan', ordinary', othersAre, own, same, passed⟩
      have entered : (scan.atIndex name).Stands (some scan.pathName) inside seen :=
        ⟨stands.settled, stands.brace, stands.unseen, stands.path⟩
      refine ⟨text', scan', ordinary', othersAre, entered.same same, ?_,
        fun impossible => ?_, passed⟩
      · rw [same.2.2.2.2]
        exact agree.enterIndex scan.pathName (fun isExact => own (noIndex isExact)) more
      · rw [counted] at impossible
        cases impossible
  · rcases leads_words scan stands.settled stands.deaf inert ordinary tokensAre with
      ⟨text', scan', ordinary', endTokens, same, passed⟩
    rcases leads_symbol (leads_semicolon scan') ordinary' endTokens rfl with
      ⟨text'', ordinary'', othersAre, finished⟩
    refine ⟨text'', scan', ordinary'', othersAre, stands.same same, ?_,
      fun _ => same.2.2.2.1, passed.trans finished⟩
    rw [same.2.2.2.2]
    cases within with
    | none => exact agree
    | some path =>
        rw [enterStatement, enterDirective_of_not (noDirective (by simp)) path info]
        exact agree

/-- The words in front of a block of a plain tree, and its opening brace. -/
theorem leads_header {within : Option Text} {inside seen : Bool} {words : List Text}
    (plain : PlainHeader (inside && seen) words) {scan : LocationScan}
    (stands : scan.Stands within inside seen) {text : Text} (ordinary : Ordinary text)
    {others : List Token}
    (tokensAre : tokens text = words.map (Token.mk .normal) ++ ⟨.startBlock, ['{']⟩ :: others) :
    Exists fun text' : Text => Exists fun scan' : LocationScan =>
      Ordinary text' ∧ tokens text' = others ∧
      scan'.Stands ((locationOf words).map Prod.fst) true (seen || (locationOf words).isSome) ∧
      scan'.locInfo = enterLocation scan.locInfo words ∧ scan'.indexName = scan.indexName ∧
      Leads text scan text' scan' := by
  rcases plain with ⟨path, handler, rfl, undivided, named⟩ | inert
  · rcases leads_locationWords ordinary undivided named tokensAre with
      ⟨inner, innerOrdinary, innerTokens, passed⟩
    rcases leads_symbol (leads_openBrace (scan.atLocation ('/' :: path) handler)) innerOrdinary
        innerTokens rfl with ⟨text', ordinary', othersAre, opened⟩
    have isLocation : locationOf ["location".toList, '/' :: path, handler] =
        some ('/' :: path, handler) := rfl
    refine ⟨text', { scan.atLocation ('/' :: path) handler with insideBrace := true }, ordinary',
      othersAre, ⟨rfl, rfl, fun notSeen => ?_, fun given isGiven _ => ?_⟩, rfl, rfl,
      passed.trans opened⟩
    · rw [isLocation] at notSeen
      simp at notSeen
    · rcases Option.some.inj isGiven with rfl
      exact ⟨rfl, List.cons_ne_nil '/' path⟩
  · rcases leads_words scan stands.settled stands.deaf inert ordinary tokensAre with
      ⟨inner, entering, innerOrdinary, innerTokens, same, passed⟩
    rcases leads_symbol (leads_openBrace entering) innerOrdinary innerTokens rfl with
      ⟨text', ordinary', othersAre, opened⟩
    rw [locationOf_inert inert, enterLocation, locationOf_inert inert]
    refine ⟨text', { entering with insideBrace := true }, ordinary', othersAre,
      ⟨same.2.1.trans stands.settled, rfl, fun notSeen => ?_, fun _ impossible => by
        cases impossible⟩, same.2.2.2.2, same.2.2.2.1, passed.trans opened⟩
    exact same.2.2.1.trans (stands.unseen (by simpa using notSeen))

theorem flatten_append_ne {config : NginxConfig} {more : List Token} (goesOn : more ≠ [⟨.eof, []⟩]) :
    config.flatten ++ more ≠ [⟨.eof, []⟩] := by
  cases config with
  | empty => exact goesOn
  | simple words next => cases words <;> simp [NginxConfig.flatten]
  | block words child next => cases words <;> simp [NginxConfig.flatten]

/-- The statements of a plain tree, up to what comes after them. -/
theorem leads_config {config : NginxConfig} {within : Option Text} {inside seen : Bool}
    (plain : config.Plain within inside seen) {scan : LocationScan}
    (stands : scan.Stands within inside seen) {exact : Prop}
    (fresh : Fresh exact scan (config.indexes within))
    {info : LocationInfo} (agree : scan.locInfo.Agree exact info)
    {text : Text} (ordinary : Ordinary text) {more : List Token}
    (tokensAre : tokens text = config.flatten ++ more)
    (goesOn : within ≠ none -> more ≠ [⟨.eof, []⟩]) :
    Exists fun text' : Text => Exists fun scan' : LocationScan =>
      Ordinary text' ∧ tokens text' = more ∧ scan'.validLocation = false ∧
      ((seen || config.hasLocation) = false -> scan'.pathName = []) ∧
      scan'.locInfo.Agree exact (config.locations within info) ∧
      (config.indexes within = 0 -> scan'.indexName = scan.indexName) ∧
      Leads text scan text' scan' := by
  induction config generalizing within inside seen scan info text more with
  | empty =>
      refine ⟨text, scan, ordinary, tokensAre, stands.settled, fun notSeen => ?_, agree,
        fun _ => rfl, Leads.refl text scan⟩
      exact stands.unseen (Bool.or_eq_false_iff.mp notSeen).1
  | simple words next inductionHypothesis =>
      rw [NginxConfig.flatten, List.append_assoc, List.cons_append] at tokensAre
      rw [NginxConfig.indexes] at fresh
      rcases leads_simple plain.1 stands fresh.first agree ordinary tokensAre (fun inLocation =>
          flatten_append_ne (goesOn inLocation)) with
        ⟨middle, scanned, middleOrdinary, nextTokens, middleStands, entered, kept, passed⟩
      rcases inductionHypothesis plain.2 middleStands (fresh.later kept) entered middleOrdinary
          nextTokens goesOn with
        ⟨text', scan', ordinary', moreTokens, settled, unseen, read, keptNext, onward⟩
      refine ⟨text', scan', ordinary', moreTokens, settled, unseen, read, fun none => ?_,
        passed.trans onward⟩
      rw [NginxConfig.indexes] at none
      rw [keptNext (by omega), kept (by omega)]
  | block words child next childHypothesis nextHypothesis =>
      rcases plain with ⟨headerPlain, childPlain, nextPlain⟩
      rw [NginxConfig.flatten, List.append_assoc, List.cons_append, List.append_assoc,
        List.cons_append] at tokensAre
      rw [NginxConfig.indexes] at fresh
      rcases leads_header headerPlain stands ordinary tokensAre with
        ⟨body, entering, bodyOrdinary, bodyTokens, childStands, entered, unread, opened⟩
      have freshChild := fresh.first
      rw [Fresh, ← unread] at freshChild
      have agreeEntering : entering.locInfo.Agree exact (enterLocation info words) := by
        rw [entered]
        exact agree.enterLocation words
      rcases childHypothesis childPlain childStands freshChild agreeEntering bodyOrdinary bodyTokens
          (fun _ impossible => by cases impossible) with
        ⟨closing, leaving, closingOrdinary, closingTokens, childSettled, childUnseen, childRead,
         childKept, childPassed⟩
      rcases leads_symbol (leads_closeBrace leaving) closingOrdinary closingTokens rfl with
        ⟨after, afterOrdinary, afterTokens, closed⟩
      have nextStands : ({ leaving with insideBrace := false } : LocationScan).Stands within false
          (seen || (locationOf words).isSome || child.hasLocation) :=
        ⟨childSettled, rfl, childUnseen, fun _ _ impossible => by cases impossible⟩
      have freshNext := fresh.later (fun none => (childKept none).trans unread)
      rcases nextHypothesis nextPlain nextStands freshNext childRead afterOrdinary afterTokens
          goesOn with ⟨text', scan', ordinary', moreTokens, settled, unseen, read, keptNext, onward⟩
      refine ⟨text', scan', ordinary', moreTokens, settled, ?_, read, fun none => ?_,
        opened.trans (childPassed.trans (closed.trans onward))⟩
      · rw [NginxConfig.hasLocation, ← Bool.or_assoc, ← Bool.or_assoc]
        exact unseen
      · rw [NginxConfig.indexes] at none
        rw [keptNext (by omega)]
        exact (childKept (by omega)).trans unread

end LocationScan

theorem withoutComments_tokens {text : Text} (unquoted : Unquoted text) :
    withoutComments (tokens text) = tokens text := by
  rw [withoutComments, List.filter_eq_self, tokens]
  generalize text.length + 1 = fuel
  induction fuel generalizing text with
  | zero => simp [tokensWithin]
  | succ fuel inductionHypothesis =>
      rcases parseToken_lexeme unquoted with ⟨blanks, textIs, _, ended⟩
      have kept : (!((parseToken text).1.type == TokenType.comment)) = true := by
        rcases ended with ⟨type, _⟩ | type | type | type | ⟨type, _⟩ <;> rw [type] <;> rfl
      rw [textIs, ← List.append_assoc] at unquoted
      rw [tokensWithin]
      by_cases last : (parseToken text).1.last = true
      · simp only [if_pos last]
        exact List.forall_mem_singleton.mpr kept
      · simp only [if_neg last]
        exact List.forall_mem_cons.mpr ⟨kept, inductionHypothesis (unquoted.of_append _)⟩

/-- A text on one line, without comments and quotes, is ordinary. -/
theorem ordinary_of_oneLine {text : Text} (unquoted : Unquoted text)
    (oneLine : '\t' ∉ text ∧ '\n' ∉ text) : Ordinary text := by
  refine ⟨unquoted, fun rest keyword after ender boundary _ isRead => ?_⟩
  have onward := boundary.trans (.next isRead rfl)
  have inside : ender ∈ text := (onward.suffix).mem List.mem_cons_self
  constructor
  · rintro rfl
    exact oneLine.1 inside
  · rintro rfl
    exact oneLine.2 inside

/-- On a text whose tree is plain, `ExtractLocation` returns the handlers and the
roots that the tree says, and the indexes too if there is at most one. -/
theorem extractLocation_plain {text : Text} {config : NginxConfig}
    (accepted : parse text = .ok (true, config)) (valid : Valid text) (ordinary : Ordinary text)
    (plain : config.Plain none false false) :
    Exists fun bound : Nat => Exists fun info : LocationInfo =>
      (forall limit : Nat, bound ≤ limit -> extractLocation limit text = some info) ∧
      info.pathToHandler = (config.locations none .empty).pathToHandler ∧
      info.pathToRoot = (config.locations none .empty).pathToRoot ∧
      (config.indexes none ≤ 1 ->
        info.pathToIndex = (config.locations none .empty).pathToIndex) := by
  rcases parse_of_valid valid with ⟨built, final, tokensAre, _, _, parsed⟩
  obtain rfl : built = config := (Prod.mk.inj (Except.ok.inj (parsed.symm.trans accepted))).2
  rw [withoutComments_tokens ordinary.unquoted] at tokensAre
  have stands : LocationScan.initial.Stands none false false :=
    ⟨rfl, rfl, fun _ => rfl, fun _ impossible => by cases impossible⟩
  have agree : LocationScan.initial.locInfo.Agree (built.indexes none ≤ 1) .empty :=
    ⟨rfl, rfl, fun _ => rfl⟩
  rcases LocationScan.leads_config plain stands (fun few => Or.inl ⟨rfl, few⟩) agree ordinary
      tokensAre (fun impossible => absurd rfl impossible) with
    ⟨rest, scan, restOrdinary, restTokens, settled, _, read, _, passed⟩
  rcases end_lexeme restOrdinary.unquoted restTokens with ⟨blanks, rfl, allBlank, finalIs⟩
  have finalPlain : forall d, d ∈ final -> endsWord d = false := by
    rcases finalIs with rfl | bare
    · simp
    · exact LocationScan.bare_plain bare
  rcases LocationScan.leads_lastWord settled finalPlain with ⟨scan', same, finished⟩
  have whole := passed.trans ((LocationScan.leads_blanks scan allBlank final).trans finished)
  rcases whole scan'.locInfo (LocationScan.gives_nil scan') with ⟨⟨bound, runs⟩, _⟩
  rw [same.2.2.2.2] at runs
  exact ⟨bound, scan.locInfo, fun limit enough => runs limit limit [] enough enough,
    read.handlers, read.roots, read.indexes⟩

/-- A location with a root on one line is read as the tree says. -/
theorem oneRoot_extracted :
    Exists fun bound : Nat => Exists fun info : LocationInfo =>
      (forall limit : Nat, bound ≤ limit ->
        extractLocation limit "location /a A \x7b root x; \x7d".toList = some info) ∧
      info.pathToHandler = SortedMap.empty.assign "/a".toList "A".toList ∧
      info.pathToRoot = SortedMap.empty.assign "/a".toList "x".toList ∧
      info.pathToIndex = .empty := by
  have accepted : parse "location /a A \x7b root x; \x7d".toList =
      .ok (true, .block ["location".toList, "/a".toList, "A".toList]
        (.simple ["root".toList, "x".toList] .empty) .empty) := by decide
  have rootPlain : PlainStatement (some "/a".toList) true ["root".toList, "x".toList] :=
    Or.inl ⟨rfl, by decide, Or.inl ⟨"x".toList, rfl, by decide⟩⟩
  have header : PlainHeader false ["location".toList, "/a".toList, "A".toList] :=
    Or.inl ⟨"a".toList, "A".toList, rfl, by decide, List.all_eq_true.mp (by decide)⟩
  rcases extractLocation_plain accepted ((valid_iff_balanced _).mpr (by decide))
      (ordinary_of_oneLine (by decide) (by decide)) ⟨header, ⟨rootPlain, trivial⟩, trivial⟩ with
    ⟨bound, info, runs, handlers, roots, indexes⟩
  exact ⟨bound, info, runs, handlers, roots, indexes (by decide)⟩

/-- Without the conditions the maps differ: a tab after a keyword, a handler with a
hyphen, a path with a carriage return, a word between keyword and path, a word that
ends in a keyword, and a root in a later block or after a nested one. -/
example : forall text : Text,
    text ∈ ["location\t/a A \x7b \x7d".toList, "location /a A-B \x7b \x7d".toList,
      "location /a\rb A \x7b \x7d".toList, "location = /a A \x7b \x7d".toList,
      "location /a A \x7b xroot y; \x7d".toList,
      "location /a A \x7b \x7d b \x7b root x; \x7d".toList,
      "location /a A \x7b b \x7b \x7d root x; \x7d".toList] ->
    Valid text ∧ Unquoted text ∧ (extractLocation 64 text).isSome = true ∧
    extractLocation 64 text ≠
      (parse text).toOption.map (fun read => read.2.locations none .empty) := by
  simp only [valid_iff_balanced]
  decide

/-- The brace that closes a nested block ends the search for the root of the location
around it. -/
theorem nestedBlock_rootMissed :
    parse "location /a A \x7b b \x7b \x7d root x; \x7d".toList =
        .ok (true, .block ["location".toList, "/a".toList, "A".toList]
          (.block ["b".toList] .empty (.simple ["root".toList, "x".toList] .empty)) .empty) ∧
      Valid "location /a A \x7b b \x7b \x7d root x; \x7d".toList ∧
      Unquoted "location /a A \x7b b \x7b \x7d root x; \x7d".toList ∧
      (extractLocation 64 "location /a A \x7b b \x7b \x7d root x; \x7d".toList).map
        (fun info => info.pathToRoot.lookup "/a".toList) = some none ∧
      ((NginxConfig.block ["location".toList, "/a".toList, "A".toList]
        (.block ["b".toList] .empty (.simple ["root".toList, "x".toList] .empty))
        .empty).locations none .empty).pathToRoot.lookup "/a".toList = some "x".toList := by
  rw [valid_iff_balanced]
  decide

end Config
end Webserver
