import Sentry.Ownership.RulesText

/-!
# Ownership rules from CODEOWNERS files

`ownership/grammar.py`. `convert_codeowners_syntax` turns a line with a pattern and owners into a
codeowners rule, if the pattern is usable and an owner is mapped; an anchored path is moved from the
source root of a code mapping to its stack root. The output gives the rules of the input in their
order (`parseRules_convertCodeownersSyntax`), where every pattern is written as a word that does not
begin with a quotation mark and the source root is nowhere in an anchored path but at its beginning.
-/

namespace Sentry.Ownership

open List
open Library.Repetition Library.UnicodeEscape

def slash : ℕ := '/'.toNat

def openBracket : ℕ := '['.toNat

def closeBracket : ℕ := ']'.toNat

def caret : ℕ := '^'.toNat

def exclamation : ℕ := '!'.toNat

/-- The characters that end a line for `str.splitlines`. -/
def lineBreaks : List ℕ := [10, 11, 12, 13, 28, 29, 30, 133, 8232, 8233]

/-- `str.splitlines`, with the characters of the line so far. -/
def splitLines : List ℕ → List ℕ → List (List ℕ)
  | [], [] => []
  | line, [] => [line]
  | line, [c] => if c ∈ lineBreaks then [line] else [line ++ [c]]
  | line, c :: d :: rest =>
    if c = carriageReturn ∧ d = newline then line :: splitLines [] rest
    else if c ∈ lineBreaks then line :: splitLines [] (d :: rest)
    else splitLines (line ++ [c]) (d :: rest)

/-- `str.replace(old, new, 1)`; an empty text is found at the beginning. -/
def replaceFirst (old new : List ℕ) : List ℕ → List ℕ
  | [] => if old = [] then new else []
  | c :: rest =>
    if old <+: c :: rest then new ++ (c :: rest).drop old.length
    else c :: replaceFirst old new rest

/-- `re.sub` of `(?<!:)\/{2,}` by a slash. Whether the character before is a slash that is not
behind a colon is given, and whether it is a colon. -/
def flattenSlashes : Bool → Bool → List ℕ → List ℕ
  | _, _, [] => []
  | inRun, afterColon, c :: rest =>
    if c ≠ slash then c :: flattenSlashes false (c = colon) rest
    else if inRun then flattenSlashes true false rest
    else c :: flattenSlashes (!afterColon) false rest

section Unicode

variable (unicode : Unicode)

/-- `str.strip` -/
def strip (text : List ℕ) : List ℕ := (text.dropWhile unicode.isSpace).rdropWhile unicode.isSpace

def splitUnescaped : Bool → List ℕ → List ℕ → List (List ℕ)
  | _, word, [] => [word]
  | escaped, word, c :: rest =>
    if unicode.isSpace c ∧ ¬ escaped then word :: splitUnescaped false [] rest
    else splitUnescaped (c = backslash) (word ++ [c]) rest

/-- `get_codeowners_path_and_owners`: there is no path in a line without words. -/
def getCodeownersPathAndOwners (rule : List ℕ) : Option (List ℕ × List (List ℕ)) :=
  match (splitUnescaped unicode false [] (strip unicode rule)).filter (· ≠ []) with
  | [] => none
  | path :: codeOwners => some (path, codeOwners.takeWhile (· ≠ [hash]))

/-- Whether `\[([^]^\s]*)\]` is found. -/
def hasRange : List ℕ → Bool
  | [] => false
  | c :: rest =>
    c = openBracket ∧
        (rest.dropWhile fun d ↦ ¬ (d = closeBracket ∨ d = caret ∨ unicode.isSpace d)).head? =
          some closeBracket ∨
      hasRange rest

def isInvalidPath (path : List ℕ) : Bool :=
  hasRange unicode path ∨ ∃ c ∈ path, unicode.isSpace c ∨ c = exclamation ∨ c = hash

/-- Whether `[\/].{1}` is found: a slash with something behind it. -/
def isAnchored : List ℕ → Bool
  | c :: d :: rest => c = slash ∧ d ≠ newline ∨ isAnchored (d :: rest)
  | _ => false

/-- `RepositoryProjectPathConfig`: the roots have neither white space nor quotation marks. -/
structure CodeMapping where
  sourceRoot : List ℕ
  stackRoot : List ℕ
  unspaced : Unspaced unicode stackRoot
  unquoted : doubleQuote ∉ stackRoot

/-- A name of an owner in Sentry, an email or a hash and a slug. -/
structure SentryName where
  node : OwnerNode
  wellFormed : node.WellFormed unicode

variable {unicode} (associations : List ℕ → Option (SentryName unicode))
  (codeMapping : CodeMapping unicode)

def formattedPath (path : List ℕ) : List ℕ :=
  if isAnchored path then
    flattenSlashes false false (replaceFirst codeMapping.sourceRoot codeMapping.stackRoot path)
  else path

/-- What is written for a line; `none` if it is split into no words. -/
def convertLine (rule : List ℕ) : Option (List ℕ) :=
  if hash ∈ rule.head? ∨ rule = [] then some (rule ++ [newline])
  else if rule.all unicode.isSpace then some []
  else
    (getCodeownersPathAndOwners unicode rule).map fun (path, codeOwners) ↦
      let sentryAssignees := codeOwners.filterMap associations
      if isInvalidPath unicode path ∨ sentryAssignees.isEmpty then []
      else
        codeowners ++ colon :: formattedPath codeMapping path ++ space ::
          List.intercalate [space] (sentryAssignees.map (·.node.written)) ++ [newline]

/-- `convert_codeowners_syntax` -/
def convertCodeownersSyntax (codeownersText : List ℕ) : Option (List ℕ) :=
  ((splitLines [] codeownersText).mapM (convertLine associations codeMapping)).map List.flatten

/-- The path of a line that is usable and has a mapped owner, with its mapped owners. -/
def mappedLine (rule : List ℕ) : Option (List ℕ × List (SentryName unicode)) :=
  if hash ∈ rule.head? then none
  else
    match getCodeownersPathAndOwners unicode rule with
    | none => none
    | some (path, codeOwners) =>
      let sentryAssignees := codeOwners.filterMap associations
      if isInvalidPath unicode path ∨ sentryAssignees.isEmpty then none
      else some (path, sentryAssignees)

/-- The rules of the lines, with what the patterns become. -/
def rulesOf (pattern : List ℕ → List ℕ) (codeownersText : List ℕ) : List Rule :=
  ((splitLines [] codeownersText).filterMap (mappedLine associations)).map fun (path, names) ↦
    ⟨⟨codeowners, pattern path⟩, names.map fun name ↦ visitOwner unicode name.node⟩

/-- An anchored path with its leading source root replaced by the stack root. -/
def movedPath (path : List ℕ) : List ℕ :=
  if isAnchored path ∧ codeMapping.sourceRoot <+: path then
    codeMapping.stackRoot ++ path.drop codeMapping.sourceRoot.length
  else path

/-- A moved path; the runs of slashes of an anchored one become one slash. -/
def flattenedPath (path : List ℕ) : List ℕ :=
  if isAnchored path then flattenSlashes false false (movedPath codeMapping path) else path

/-- The source root is nowhere in the path but at its beginning, and the moved path begins with
something other than a quotation mark. -/
structure Regular (path : List ℕ) : Prop where
  rooted : isAnchored path → codeMapping.sourceRoot <:+: path → codeMapping.sourceRoot <+: path
  begins : ∃ c ∈ (movedPath codeMapping path).head?, c ≠ doubleQuote

end Unicode

theorem notMem_lineBreaks_of_mem_splitLines {line text : List ℕ}
    (hline : ∀ c ∈ line, c ∉ lineBreaks) :
    ∀ other ∈ splitLines line text, ∀ c ∈ other, c ∉ lineBreaks := by
  fun_induction splitLines line text with
  | case1 => simp
  | case2 | case3 => simpa using hline
  | case4 line c hc =>
    rw [forall_mem_singleton, forall_mem_append]
    exact ⟨hline, by simpa using hc⟩
  | case5 line c d rest hreturn ih =>
    exact forall_mem_cons.mpr ⟨hline, ih (by simp)⟩
  | case6 line c d rest hreturn hc ih =>
    exact forall_mem_cons.mpr ⟨hline, ih (by simp)⟩
  | case7 line c d rest hreturn hc ih =>
    refine ih (forall_mem_append.mpr ⟨hline, ?_⟩)
    simpa using hc

section Unicode

variable {unicode : Unicode}

theorem exists_mem_splitUnescaped {c : ℕ} (hc : unicode.isSpace c = false) {escaped : Bool}
    {word text : List ℕ} (h : c ∈ word ∨ c ∈ text) :
    ∃ other ∈ splitUnescaped unicode escaped word text, c ∈ other := by
  fun_induction splitUnescaped unicode escaped word text with
  | case1 escaped word => simpa using h
  | case2 escaped word d rest hd ih =>
    by_cases hword : c ∈ word
    · exact ⟨word, mem_cons_self, hword⟩
    · have hrest : c ∈ rest := by
        refine (mem_cons.mp (h.resolve_left hword)).resolve_left fun heq ↦ ?_
        rw [heq, hd.1] at hc
        cases hc
      obtain ⟨other, hother, hmem⟩ := ih (Or.inr hrest)
      exact ⟨other, mem_cons_of_mem _ hother, hmem⟩
  | case3 escaped word d rest hd ih =>
    refine ih ?_
    rw [mem_append, mem_singleton, or_assoc]
    exact h.imp_right mem_cons.mp

theorem mem_strip {c : ℕ} {text : List ℕ} (hc : unicode.isSpace c = false) (h : c ∈ text) :
    c ∈ strip unicode text := by
  have hleft : c ∈ text.dropWhile unicode.isSpace := by
    rw [← takeWhile_append_dropWhile (p := unicode.isSpace) (l := text), mem_append] at h
    refine h.resolve_left fun hmem ↦ ?_
    simp [mem_takeWhile_imp hmem] at hc
  rw [← rdropWhile_append_rtakeWhile (p := unicode.isSpace)
    (l := text.dropWhile unicode.isSpace), mem_append] at hleft
  refine hleft.resolve_right fun hmem ↦ ?_
  simp [mem_rtakeWhile_imp hmem] at hc

theorem exists_getCodeownersPathAndOwners {line : List ℕ} (h : ¬ line.all unicode.isSpace) :
    ∃ split, getCodeownersPathAndOwners unicode line = some split := by
  obtain ⟨c, hc, hspace⟩ : ∃ c ∈ line, unicode.isSpace c = false := by
    simpa using h
  obtain ⟨word, hword, hmem⟩ :=
    @exists_mem_splitUnescaped unicode c hspace false [] (strip unicode line)
      (Or.inr (mem_strip hspace hc))
  have hfilter : word ∈ (splitUnescaped unicode false [] (strip unicode line)).filter (· ≠ []) := by
    rw [mem_filter]
    exact ⟨hword, by simpa using ne_nil_of_mem hmem⟩
  unfold getCodeownersPathAndOwners
  split
  · next hnil => exact absurd (hnil ▸ hfilter) not_mem_nil
  · exact ⟨_, rfl⟩

theorem getCodeownersPathAndOwners_of_all {line : List ℕ} (h : line.all unicode.isSpace) :
    getCodeownersPathAndOwners unicode line = none := by
  have hstrip : strip unicode line = [] := by
    rw [strip, dropWhile_eq_nil_iff.mpr (by simpa using h), rdropWhile_nil]
  rw [getCodeownersPathAndOwners, hstrip]
  rfl

theorem unspaced_of_not_isInvalidPath {path : List ℕ} (h : ¬ isInvalidPath unicode path) :
    Unspaced unicode path := by
  intro c hc
  simp only [isInvalidPath, decide_eq_true_eq, not_or, not_exists, not_and] at h
  simpa using (h.2 c hc).1

theorem replaceFirst_of_isPrefix {old new text : List ℕ} (h : old <+: text) :
    replaceFirst old new text = new ++ text.drop old.length := by
  cases text with
  | nil => simp [replaceFirst, prefix_nil.mp h]
  | cons c rest => rw [replaceFirst, if_pos h]

theorem replaceFirst_of_not_isInfix {old new text : List ℕ} (h : ¬ old <:+: text) :
    replaceFirst old new text = text := by
  induction text with
  | nil =>
    refine if_neg fun heq ↦ h ?_
    subst heq
    exact nil_infix
  | cons c rest ih =>
    rw [replaceFirst, if_neg fun hleading ↦ h hleading.isInfix,
      ih fun hfound ↦ h (hfound.trans (suffix_cons c rest).isInfix)]

theorem flattenSlashes_sublist (inRun afterColon : Bool) (text : List ℕ) :
    (flattenSlashes inRun afterColon text).Sublist text := by
  fun_induction flattenSlashes inRun afterColon text with
  | case1 => exact List.Sublist.refl _
  | case2 inRun afterColon c rest hc ih => exact ih.cons_cons c
  | case3 afterColon c rest hc ih => exact ih.cons c
  | case4 inRun afterColon c rest hc hrun ih => exact ih.cons_cons c

theorem head?_flattenSlashes (afterColon : Bool) (text : List ℕ) :
    (flattenSlashes false afterColon text).head? = text.head? := by
  cases text with
  | nil => rfl
  | cons c rest => by_cases hc : c = slash <;> simp [flattenSlashes, hc]

variable {codeMapping : CodeMapping unicode} {path : List ℕ}

theorem formattedPath_eq (h : Regular codeMapping path) :
    formattedPath codeMapping path = flattenedPath codeMapping path := by
  unfold formattedPath flattenedPath movedPath
  by_cases hanchored : isAnchored path
  · by_cases hfound : codeMapping.sourceRoot <:+: path
    · have hleading := h.rooted hanchored hfound
      simp [hanchored, hleading, replaceFirst_of_isPrefix hleading]
    · have hleading : ¬ codeMapping.sourceRoot <+: path := fun hleading ↦ hfound hleading.isInfix
      simp [hanchored, hleading, replaceFirst_of_not_isInfix hfound]
  · simp [hanchored]

theorem unspaced_movedPath (h : Unspaced unicode path) :
    Unspaced unicode (movedPath codeMapping path) := by
  unfold movedPath
  split_ifs
  · intro c hc
    rcases mem_append.mp hc with hstack | hpath
    · exact codeMapping.unspaced c hstack
    · exact h c (mem_of_mem_drop hpath)
  · exact h

theorem unspaced_flattenedPath (h : Unspaced unicode path) :
    Unspaced unicode (flattenedPath codeMapping path) := by
  unfold flattenedPath
  split_ifs
  · exact fun c hc ↦ unspaced_movedPath h c ((flattenSlashes_sublist _ _ _).subset hc)
  · exact h

theorem head?_flattenedPath :
    (flattenedPath codeMapping path).head? = (movedPath codeMapping path).head? := by
  unfold flattenedPath
  split_ifs with hanchored
  · exact head?_flattenSlashes false _
  · simp [movedPath, hanchored]

variable (associations : List ℕ → Option (SentryName unicode)) (codeMapping)

def readLine (rule : List ℕ) : Option RuleNode :=
  (mappedLine associations rule).map fun (path, names) ↦
    ⟨⟨some codeowners, .identifier (flattenedPath codeMapping path)⟩, names.map SentryName.node⟩

variable {associations codeMapping}

theorem rule_newline (hunicode : unicode.Lawful) (rest : List ℕ) :
    rule unicode (newline :: rest) = none := by
  have hdrop : dropSpaces (newline :: rest) = newline :: rest := dropSpaces_cons (by decide) rest
  have htag : matcherTag (newline :: rest) = (none, newline :: rest) := by
    refine (matcherTag_cases (newline :: rest)).resolve_right ?_
    rintro ⟨type, left, -, htype, htext⟩
    obtain ⟨c, tail, rfl, -, -, -, hnewline⟩ := htype.exists_cons
    exact hnewline (List.cons.inj htext).1.symm
  have hquoted : quotedIdentifier (newline :: rest) = none := by
    rw [quotedIdentifier, if_neg (by decide)]
  unfold rule matcher
  rw [hdrop, hdrop, htag]
  simp only
  unfold anyIdentifier
  rw [hquoted, identifier_of_isSpace hunicode.isSpace_newline]
  rfl

theorem line_newline (hunicode : unicode.Lawful) (rest : List ℕ) :
    line unicode (newline :: rest) = some (none, rest) := by
  have hcomment : comment (newline :: rest) = none := by
    unfold comment
    rfl
  unfold line
  rw [dropSpaces_cons (by decide)]
  unfold lineBody
  rw [hcomment, rule_newline hunicode]
  exact if_pos (Nat.lt_succ_self _)

theorem line_comment {text : List ℕ} (h : ∀ c ∈ text, c ∉ lineBreaks) (rest : List ℕ) :
    line unicode (hash :: (text ++ newline :: rest)) = some (none, rest) := by
  have hcomment : comment (hash :: (text ++ newline :: rest)) = some (newline :: rest) := by
    unfold comment
    rw [literal_cons, Option.map_some, dropWhile_append_of_pos]
    · exact congrArg some (dropWhile_cons_of_neg (by simp))
    · intro c hc
      rw [decide_eq_true_iff]
      refine ⟨fun heq ↦ h c hc ?_, fun heq ↦ h c hc ?_⟩
      · rw [heq]
        decide
      · rw [heq]
        decide
  unfold line
  rw [dropSpaces_cons (by decide)]
  unfold lineBody
  rw [hcomment]
  refine if_pos ?_
  show rest.length < _
  simp only [length_cons, length_append]
  omega

theorem space_cons_names {names : List (SentryName unicode)} (hne : names ≠ []) :
    space :: List.intercalate [space] (names.map (·.node.written)) =
      (names.map SentryName.node).flatMap fun node ↦ space :: node.written := by
  cases names with
  | nil => exact absurd rfl hne
  | cons name others =>
    rw [map_cons, intercalate_space_cons, map_cons, flatMap_cons, flatMap_map, flatMap_map]
    rfl

theorem line_formattedPath (hunicode : unicode.Lawful) {path : List ℕ}
    {names : List (SentryName unicode)} (hpath : Unspaced unicode path) (hnames : names ≠ [])
    (hregular : Regular codeMapping path) (rest : List ℕ) :
    line unicode (codeowners ++ colon :: formattedPath codeMapping path ++ space ::
        List.intercalate [space] (names.map (·.node.written)) ++ [newline] ++ rest) =
      some (some ⟨⟨some codeowners, .identifier (flattenedPath codeMapping path)⟩,
        names.map SentryName.node⟩, rest) := by
  obtain ⟨c, hc, hquote⟩ := hregular.begins
  rw [← head?_flattenedPath] at hc
  obtain ⟨tail, hpattern⟩ := head?_eq_some_iff.mp hc
  have htype : IsMatcherType codeowners := isMatcherType_of_mem (by simp)
  have hne : flattenedPath codeMapping path ≠ [] := by
    rw [hpattern]
    exact cons_ne_nil c tail
  have hnodes : names.map SentryName.node ≠ [] := by
    simpa using hnames
  have hwell : ∀ node ∈ names.map SentryName.node, node.WellFormed unicode := by
    intro node hnode
    obtain ⟨name, -, rfl⟩ := mem_map.mp hnode
    exact name.wellFormed
  rw [formattedPath_eq hregular, append_assoc, append_assoc, space_cons_names hnames,
    append_assoc, cons_append]
  refine line_written hunicode htype hne (unspaced_flattenedPath hpath) hnodes hwell ?_
  rw [hpattern, cons_append, quotedIdentifier, if_neg hquote]

theorem convertLine_cases (hunicode : unicode.Lawful) {rule : List ℕ}
    (hrule : ∀ c ∈ rule, c ∉ lineBreaks)
    (hregular : ∀ path names, mappedLine associations rule = some (path, names) →
      Regular codeMapping path) :
    (∃ written, convertLine associations codeMapping rule = some written ∧ ∀ rest,
      line unicode (written ++ rest) = some (readLine codeMapping associations rule, rest)) ∨
    convertLine associations codeMapping rule = some [] ∧
      readLine codeMapping associations rule = none := by
  by_cases hhash : hash ∈ rule.head?
  · -- a comment
    obtain ⟨text, rfl⟩ := head?_eq_some_iff.mp hhash
    refine Or.inl ⟨hash :: text ++ [newline], by simp [convertLine], fun rest ↦ ?_⟩
    have hread : readLine codeMapping associations (hash :: text) = none := by
      simp [readLine, mappedLine]
    rw [hread, append_assoc, cons_append]
    exact line_comment (fun c hc ↦ hrule c (mem_cons_of_mem _ hc)) rest
  by_cases hspaces : rule.all unicode.isSpace
  · have hsplit : readLine codeMapping associations rule = none := by
      simp [readLine, mappedLine, hhash, getCodeownersPathAndOwners_of_all hspaces]
    by_cases hnil : rule = []
    · refine Or.inl ⟨[newline], by simp [convertLine, hnil], fun rest ↦ ?_⟩
      rw [hsplit]
      exact line_newline hunicode rest
    · exact Or.inr ⟨by simp [convertLine, hhash, hnil, hspaces], hsplit⟩
  have hnil : rule ≠ [] := by
    rintro rfl
    exact hspaces rfl
  obtain ⟨⟨path, codeOwners⟩, hsplit⟩ := exists_getCodeownersPathAndOwners hspaces
  by_cases hskipped : isInvalidPath unicode path ∨ (codeOwners.filterMap associations).isEmpty
  · refine Or.inr ⟨?_, ?_⟩
    · unfold convertLine
      rw [if_neg (not_or.mpr ⟨hhash, hnil⟩), if_neg hspaces, hsplit]
      exact congrArg some (if_pos hskipped)
    · unfold readLine mappedLine
      rw [if_neg hhash, hsplit]
      simp only
      rw [if_pos hskipped]
      rfl
  · have hmapped : mappedLine associations rule =
        some (path, codeOwners.filterMap associations) := by
      unfold mappedLine
      rw [if_neg hhash, hsplit]
      exact if_neg hskipped
    obtain ⟨hvalid, hnames⟩ := not_or.mp hskipped
    refine Or.inl ⟨codeowners ++ colon :: formattedPath codeMapping path ++ space ::
      List.intercalate [space] ((codeOwners.filterMap associations).map (·.node.written)) ++
        [newline], ?_, fun rest ↦ ?_⟩
    · unfold convertLine
      rw [if_neg (not_or.mpr ⟨hhash, hnil⟩), if_neg hspaces, hsplit]
      exact congrArg some (if_neg hskipped)
    · unfold readLine
      rw [hmapped]
      exact line_formattedPath hunicode (unspaced_of_not_isInvalidPath hvalid)
        (by simpa using hnames) (hregular _ _ hmapped) rest

theorem exists_many_line (hunicode : unicode.Lawful) {lines : List (List ℕ)}
    (hlines : ∀ line ∈ lines, ∀ c ∈ line, c ∉ lineBreaks)
    (hregular : ∀ line ∈ lines, ∀ path names, mappedLine associations line = some (path, names) →
      Regular codeMapping path) :
    ∃ written nodes, lines.mapM (convertLine associations codeMapping) = some written ∧
      many (line unicode) written.flatten = (nodes, []) ∧
      nodes.filterMap id = lines.filterMap (readLine codeMapping associations) := by
  induction lines with
  | nil => exact ⟨[], [], rfl, rfl, rfl⟩
  | cons first rest ih =>
    rw [forall_mem_cons] at hlines hregular
    obtain ⟨written, nodes, hwritten, hmany, hnodes⟩ := ih hlines.2 hregular.2
    rcases convertLine_cases hunicode hlines.1 hregular.1 with ⟨text, htext, hline⟩ | ⟨htext, hread⟩
    · refine ⟨text :: written, readLine codeMapping associations first :: nodes, ?_, ?_, ?_⟩
      · simp [mapM_cons, htext, hwritten]
      · rw [flatten_cons, many_of_some (shortens_line unicode) (hline written.flatten), hmany]
      · cases hread : readLine codeMapping associations first with
        | none =>
          rw [filterMap_cons_none hread, ← hnodes]
          rfl
        | some node =>
          rw [filterMap_cons_some hread, ← hnodes]
          rfl
    · refine ⟨[] :: written, nodes, ?_, ?_, ?_⟩
      · simp [mapM_cons, htext, hwritten]
      · rwa [flatten_cons, nil_append]
      · rw [filterMap_cons, hread, hnodes]

/-- The output is accepted, and its rules are those of the lines in their order, with their paths
moved to the stack root and the runs of slashes of anchored paths made one slash, if every path that
becomes a pattern is regular. -/
theorem parseRules_convertCodeownersSyntax (hunicode : unicode.Lawful)
    (associations : List ℕ → Option (SentryName unicode)) (codeMapping : CodeMapping unicode)
    (codeownersText : List ℕ)
    (hregular : ∀ line ∈ splitLines [] codeownersText, ∀ path names,
      mappedLine associations line = some (path, names) → Regular codeMapping path) :
    (convertCodeownersSyntax associations codeMapping codeownersText).bind (parseRules unicode) =
      some (rulesOf associations (flattenedPath codeMapping) codeownersText) := by
  obtain ⟨written, nodes, hwritten, hmany, hnodes⟩ :=
    exists_many_line hunicode (notMem_lineBreaks_of_mem_splitLines (by simp)) hregular
  rw [convertCodeownersSyntax, hwritten, Option.map_some, Option.bind_some, parseRules_eq_some_iff,
    hmany]
  refine ⟨rfl, ?_⟩
  have hread : (splitLines [] codeownersText).filterMap (readLine codeMapping associations) =
      ((splitLines [] codeownersText).filterMap (mappedLine associations)).map fun mapped ↦
        ⟨⟨some codeowners, .identifier (flattenedPath codeMapping mapped.1)⟩,
          mapped.2.map SentryName.node⟩ := by
    rw [map_filterMap]
    rfl
  show (nodes.filterMap id).map _ = _
  rw [hnodes, hread, rulesOf, map_map, map_map]
  refine map_congr_left fun mapped _ ↦ ?_
  show some (Rule.mk _ ((mapped.2.map SentryName.node).map (visitOwner unicode))) = _
  rw [map_map]
  rfl

end Unicode

/-- The line `s//a @` of a file. -/
def slashesText : List ℕ := codes ['s', '/', '/', 'a', ' ', '@']

/-- The team `t`. -/
def teamName : SentryName asciiUnicode where
  node := ⟨true, codes ['t']⟩
  wellFormed :=
    { ne_nil := by decide
      unspaced := by unfold Unspaced; decide
      hash_notMem_head := by decide }

/-- `@` is the team. -/
def slashesAssociations (owner : List ℕ) : Option (SentryName asciiUnicode) :=
  if owner = codes ['@'] then some teamName else none

def slashesMapping : CodeMapping asciiUnicode where
  sourceRoot := codes ['l']
  stackRoot := codes ['x']
  unspaced := by unfold Unspaced; decide
  unquoted := by decide

/-- The pattern of the rule is `s/a`. -/
theorem slashes_flattened :
    (convertCodeownersSyntax slashesAssociations slashesMapping slashesText).bind
        (parseRules asciiUnicode) ≠
      some (rulesOf slashesAssociations (movedPath slashesMapping) slashesText) := by
  decide

theorem parseRules_convertCodeownersSyntax_slashesText :
    (convertCodeownersSyntax slashesAssociations slashesMapping slashesText).bind
        (parseRules asciiUnicode) =
      some (rulesOf slashesAssociations (flattenedPath slashesMapping) slashesText) := by
  have hlines : splitLines [] slashesText = [slashesText] := rfl
  have hmapped : mappedLine slashesAssociations slashesText =
      some (codes ['s', '/', '/', 'a'], [teamName]) := rfl
  refine parseRules_convertCodeownersSyntax lawful_asciiUnicode _ _ _ ?_
  rw [hlines, forall_mem_singleton, hmapped]
  intro path names h
  obtain ⟨rfl, -⟩ := Prod.mk.inj (Option.some.inj h)
  refine ⟨fun _ hfound ↦ ?_, ⟨_, rfl, by decide⟩⟩
  exact absurd (hfound.subset (mem_singleton_self _)) (by decide)

end Sentry.Ownership
