import LintConfig.Proofs.Json.Settled
import LintConfig.Proofs.Json.Tokens

/-!
# Reading a text with comments

The relaxed reader goes through a commented text as the strict reader goes through the text
without the comments: it takes the same tokens, and its value is what the strict reader found, with
an integer for every whole double.
-/

namespace LintConfig.Json

/-- What the strict reader found, and what the relaxed reader found in its place. -/
def Agrees (n : Node) (t : Relaxed.Tree) : Prop :=
  ∃ j, t.json = .ok j ∧ Settled n j.collapse.wholeNumbers

/-- Items that the two readers found. -/
def AgreesItems (ns : List Node) (ts : List Relaxed.Tree) : Prop :=
  ∃ js, Relaxed.jsonItems ts = .ok js ∧ SettledItems ns (wholeItems (collapseItems js))

/-- Members that the two readers found. -/
def AgreesMembers (es : List (Node × Node)) (ms : List (List Relaxed.Part × Relaxed.Tree)) : Prop :=
  ∃ js, Relaxed.jsonMembers ms = .ok js ∧ SettledMembers es (wholeMembers (collapseMembers js))

/-! ### The readers at a token -/

section

variable {fuel depth : Nat} {c : Char} {cs rest tail : List Char}

/-- What starts like no other value is read as a number. -/
theorem strict_of_head (hcs : Strict.skipSpace cs = c :: tail)
    (hc : c ∉ ['"', 't', 'f', 'n', '[', '\x7b']) :
    Strict.value? (fuel + 1) depth cs = Strict.number? (c :: tail) := by
  unfold Strict.value?
  rw [hcs]
  split <;> simp_all

theorem relaxed_string (cs : List Char) : Relaxed.value? (fuel + 1) ('"' :: cs) =
    (Relaxed.parts? '"' cs).map fun r => (.str r.1, r.2) := rfl

theorem relaxed_list (cs : List Char) : Relaxed.value? (fuel + 1) ('[' :: cs) =
    match Relaxed.skip cs with
    | ']' :: rest => some (.arr [], rest)
    | cs => (Relaxed.items? fuel cs).map fun r => (.arr r.1, r.2) := rfl

theorem relaxed_map (cs : List Char) : Relaxed.value? (fuel + 1) ('\x7b' :: cs) =
    match Relaxed.skip cs with
    | '\x7d' :: rest => some (.obj [], rest)
    | cs => (Relaxed.members? fuel cs).map fun r => (.obj r.1, r.2) := rfl

/-- What starts like no other value is read as a numeral. -/
theorem relaxed_of_head (hc : c ∉ ['n', 't', 'f', '"', '\'', '[', '\x7b']) :
    Relaxed.value? (fuel + 1) (c :: cs) =
      (Relaxed.numeral? (c :: cs)).map fun r => (.numeral r.1, r.2) := by
  simp only [List.mem_cons, List.not_mem_nil, or_false, not_or] at hc
  have hword {d : Char} (hd : c ≠ d) (w : List Char) : Strict.expect? (d :: w) (c :: cs) = none :=
    if_neg hd.symm
  have hnull : Strict.expect? "null".toList (c :: cs) = none := hword hc.1 _
  have htrue : Strict.expect? "true".toList (c :: cs) = none := hword hc.2.1 _
  have hfalse : Strict.expect? "false".toList (c :: cs) = none := hword hc.2.2.1 _
  unfold Relaxed.value?
  rw [hnull, htrue, hfalse]
  dsimp only
  split <;> simp_all

theorem strict_number {t : NumberToken} (hcs : Strict.skipSpace cs = t.chars ++ rest)
    (hrest : Stops rest) : Strict.value? (fuel + 1) depth cs = some (t.strictNode, rest) := by
  obtain ⟨c, tail, ht, hc⟩ := t.exists_head
  have hnumber := t.strict_eq hrest
  rw [ht, List.cons_append] at hcs hnumber
  rw [strict_of_head hcs, hnumber]
  intro hmem
  simp only [List.mem_cons, List.not_mem_nil, or_false] at hmem
  rcases hmem with rfl | rfl | rfl | rfl | rfl | rfl <;> simp at hc

theorem relaxed_number {t : NumberToken} (hrest : Stops rest) :
    Relaxed.value? (fuel + 1) (t.chars ++ rest) = some (.numeral t.chars, rest) := by
  obtain ⟨c, tail, ht, hc⟩ := t.exists_head
  have hnumeral := t.relaxed_eq hrest
  rw [ht, List.cons_append] at hnumeral ⊢
  rw [relaxed_of_head, hnumeral]
  · rfl
  · intro hmem
    simp only [List.mem_cons, List.not_mem_nil, or_false] at hmem
    rcases hmem with rfl | rfl | rfl | rfl | rfl | rfl | rfl <;> simp at hc

/-- Nothing that starts with a mark is a number. -/
theorem number?_mark (m : Mark) (cs : List Char) : Strict.number? (m.char :: cs) = none := by
  cases m <;> rfl

/-- No item starts with the end of an array. -/
theorem items?_close (hcs : Strict.skipSpace cs = ']' :: tail) :
    Strict.items? fuel depth cs = none := by
  have hvalue (fuel : Nat) : Strict.value? fuel depth cs = none := by
    cases fuel with
    | zero => rfl
    | succ fuel =>
      rw [strict_of_head hcs (by decide)]
      exact number?_mark .closeList tail
  cases fuel with
  | zero => rfl
  | succ fuel => rw [Strict.items?, hvalue]; rfl

/-- No member starts with the end of an object. -/
theorem members?_close (hcs : Strict.skipSpace cs = '\x7d' :: tail) :
    Strict.members? fuel depth cs = none := by
  cases fuel with
  | zero => rfl
  | succ fuel => rw [Strict.members?, hcs]; rfl

/-- The node of a word. -/
def Word.node : Word → Node
  | .null => .null
  | .yes => .bool true
  | .no => .bool false

/-- The tree of a word. -/
def Word.tree : Word → Relaxed.Tree
  | .null => .null
  | .yes => .bool true
  | .no => .bool false

theorem strict_word {w : Word} (hcs : Strict.skipSpace cs = w.chars ++ rest) :
    Strict.value? (fuel + 1) depth cs = some (w.node, rest) := by
  unfold Strict.value?
  rw [hcs]
  cases w <;> rfl

theorem relaxed_word (w : Word) (rest : List Char) :
    Relaxed.value? (fuel + 1) (w.chars ++ rest) = some (w.tree, rest) := by
  cases w <;> rfl

theorem strict_string (hcs : Strict.skipSpace cs = '"' :: tail) :
    Strict.value? (fuel + 1) depth cs =
      (Strict.pieces? tail).map fun r => (Strict.stringNode r.1, r.2) := by
  unfold Strict.value?
  rw [hcs]
  rfl

theorem strict_list (hcs : Strict.skipSpace cs = '[' :: tail) :
    Strict.value? (fuel + 1) depth cs = match Strict.skipSpace tail with
      | ']' :: rest => some (Strict.nested depth (.seq []), rest)
      | cs => (Strict.items? fuel (depth - 1) cs).map fun r =>
          (Strict.nested depth (.seq r.1), r.2) := by
  unfold Strict.value?
  rw [hcs]
  rfl

theorem strict_map (hcs : Strict.skipSpace cs = '\x7b' :: tail) :
    Strict.value? (fuel + 1) depth cs = match Strict.skipSpace tail with
      | '\x7d' :: rest => some (Strict.nested depth (Strict.objectNode []), rest)
      | cs => (Strict.members? fuel (depth - 1) cs).map fun r =>
          (Strict.nested depth (Strict.objectNode r.1), r.2) := by
  unfold Strict.value?
  rw [hcs]
  rfl

end

/-! ### Agreement -/

theorem Word.agrees (w : Word) : Agrees w.node w.tree := by
  cases w with
  | null => exact ⟨.null, rfl, .null⟩
  | yes => exact ⟨.bool true, rfl, .bool true⟩
  | no => exact ⟨.bool false, rfl, .bool false⟩

theorem NumberToken.agrees {t : NumberToken} (h : t.Portable) :
    Agrees t.strictNode (.numeral t.chars) := by
  obtain ⟨x, y, hx, hy, hwhole⟩ := t.exists_number h
  refine ⟨.num y, hy, ?_⟩
  rw [hx]
  change Settled (.num x) (.num (wholeNumber y))
  rw [hwhole]
  exact .num x

theorem StringToken.agrees {t : StringToken} (h : t.Portable) :
    Agrees (Strict.stringNode (t.parts.map Part.piece)) (.str t.parts) := by
  obtain ⟨s, hnode, htext⟩ := t.stringNode_eq h
  refine ⟨.str s, ?_, hnode ▸ .str s⟩
  rw [Relaxed.Tree.json, htext]
  rfl

theorem AgreesItems.nil : AgreesItems [] [] := ⟨[], rfl, .nil⟩

theorem AgreesItems.cons {n : Node} {ns : List Node} {t : Relaxed.Tree} {ts : List Relaxed.Tree}
    (h : Agrees n t) (hs : AgreesItems ns ts) : AgreesItems (n :: ns) (t :: ts) := by
  obtain ⟨j, hj, hsettled⟩ := h
  obtain ⟨js, hjs, hrest⟩ := hs
  refine ⟨j :: js, ?_, .cons hsettled hrest⟩
  rw [Relaxed.jsonItems, hj, hjs]
  rfl

theorem AgreesMembers.nil : AgreesMembers [] [] := ⟨[], rfl, .nil⟩

theorem AgreesMembers.cons {key : StringToken} {n : Node} {es : List (Node × Node)}
    {t : Relaxed.Tree} {ms : List (List Relaxed.Part × Relaxed.Tree)} (hkey : key.Portable)
    (h : Agrees n t) (hs : AgreesMembers es ms) :
    AgreesMembers ((Strict.stringNode (key.parts.map Part.piece), n) :: es)
      ((key.parts, t) :: ms) := by
  obtain ⟨name, hnode, htext⟩ := key.stringNode_eq hkey
  obtain ⟨j, hj, hsettled⟩ := h
  obtain ⟨js, hjs, hrest⟩ := hs
  rw [hnode]
  refine ⟨(name, j) :: js, ?_, .cons hsettled hrest⟩
  rw [Relaxed.jsonMembers, htext, hj, hjs]
  rfl

/-- Arrays agree if their items do; one that is nested too deep agrees with anything. -/
theorem AgreesItems.agrees {ns : List Node} {ts : List Relaxed.Tree} (h : AgreesItems ns ts)
    (depth : Nat) : Agrees (Strict.nested depth (.seq ns)) (.arr ts) := by
  obtain ⟨js, hjs, hsettled⟩ := h
  refine ⟨.arr js, ?_, ?_⟩
  · rw [Relaxed.Tree.json, hjs]
    rfl
  · unfold Strict.nested
    split_ifs
    · exact .unreadable _
    · exact .seq hsettled

/-- Objects agree if their members do. -/
theorem AgreesMembers.agrees {es : List (Node × Node)}
    {ms : List (List Relaxed.Part × Relaxed.Tree)} (h : AgreesMembers es ms) (depth : Nat) :
    Agrees (Strict.nested depth (Strict.objectNode es)) (.obj ms) := by
  obtain ⟨js, hjs, hsettled⟩ := h
  refine ⟨.obj js, ?_, ?_⟩
  · rw [Relaxed.Tree.json, hjs]
    rfl
  · unfold Strict.nested Strict.objectNode
    split_ifs
    · exact .unreadable _
    · change Settled (.map es) (.obj (wholeMembers (Table.ofEntries (collapseMembers js))))
      rw [wholeMembers_eq, Table.mapValues_ofEntries, ← wholeMembers_eq]
      exact .map hsettled
    · exact .unreadable _

/-! ### Going through both texts -/

/-- Whatever value the strict reader finds, the relaxed reader finds one that agrees. -/
def FollowsValue (fuel : Nat) : Prop :=
  ∀ {m depth : Nat} {cs ds rest : List Char} {n : Node}, fuel ≤ m →
    Commented Token.Portable cs ds → Strict.value? fuel depth cs = some (n, rest) →
    ∃ t rest', Relaxed.value? m (Relaxed.skip ds) = some (t, rest') ∧ Agrees n t ∧
      Commented Token.Portable rest rest'

/-- Whatever items the strict reader finds, the relaxed reader finds some that agree. -/
def FollowsItems (fuel : Nat) : Prop :=
  ∀ {m depth : Nat} {cs ds rest : List Char} {ns : List Node}, fuel ≤ m →
    Commented Token.Portable cs ds → Strict.items? fuel depth cs = some (ns, rest) →
    ∃ ts rest', Relaxed.items? m (Relaxed.skip ds) = some (ts, rest') ∧ AgreesItems ns ts ∧
      Commented Token.Portable rest rest'

/-- Whatever members the strict reader finds, the relaxed reader finds some that agree. -/
def FollowsMembers (fuel : Nat) : Prop :=
  ∀ {m depth : Nat} {cs ds rest : List Char} {es : List (Node × Node)}, fuel ≤ m →
    Commented Token.Portable cs ds → Strict.members? fuel depth cs = some (es, rest) →
    ∃ ms rest', Relaxed.members? m (Relaxed.skip ds) = some (ms, rest') ∧ AgreesMembers es ms ∧
      Commented Token.Portable rest rest'

section

variable {fuel m depth : Nat} {cs ds tail tail' rest : List Char} {n : Node}

/-- An array is read alike if its items are. -/
theorem FollowsItems.list (hitems : FollowsItems fuel) (hm : fuel ≤ m)
    (htail : Commented Token.Portable tail tail') (hcs : Strict.skipSpace cs = '[' :: tail)
    (hn : Strict.value? (fuel + 1) depth cs = some (n, rest)) :
    ∃ t rest', Relaxed.value? (m + 1) ('[' :: tail') = some (t, rest') ∧ Agrees n t ∧
      Commented Token.Portable rest rest' := by
  have hclose := htail.front_mark .closeList
  rw [strict_list hcs] at hn
  rw [relaxed_list]
  split at hn
  next cs' heq =>
    obtain ⟨ds', hds, hrest⟩ := hclose.1 cs' heq
    obtain ⟨rfl, rfl⟩ := Prod.mk.inj (Option.some.inj hn)
    rw [hds]
    exact ⟨.arr [], ds', rfl, AgreesItems.nil.agrees depth, hrest⟩
  next hopen =>
    obtain ⟨⟨ns, rest⟩, hns, hn⟩ := Option.map_eq_some_iff.1 hn
    obtain ⟨rfl, rfl⟩ := Prod.mk.inj hn
    obtain ⟨ts, ds', hts, hagrees, hrest⟩ := hitems hm htail.skipSpace hns
    refine ⟨.arr ts, ds', ?_, hagrees.agrees depth, hrest⟩
    split
    next heq =>
      obtain ⟨cs', hcs'⟩ := hclose.2 _ heq
      exact (hopen cs' hcs').elim
    next => rw [hts]; rfl

/-- An object is read alike if its members are. -/
theorem FollowsMembers.map (hmembers : FollowsMembers fuel) (hm : fuel ≤ m)
    (htail : Commented Token.Portable tail tail') (hcs : Strict.skipSpace cs = '\x7b' :: tail)
    (hn : Strict.value? (fuel + 1) depth cs = some (n, rest)) :
    ∃ t rest', Relaxed.value? (m + 1) ('\x7b' :: tail') = some (t, rest') ∧ Agrees n t ∧
      Commented Token.Portable rest rest' := by
  have hclose := htail.front_mark .closeMap
  rw [strict_map hcs] at hn
  rw [relaxed_map]
  split at hn
  next cs' heq =>
    obtain ⟨ds', hds, hrest⟩ := hclose.1 cs' heq
    obtain ⟨rfl, rfl⟩ := Prod.mk.inj (Option.some.inj hn)
    rw [hds]
    exact ⟨.obj [], ds', rfl, AgreesMembers.nil.agrees depth, hrest⟩
  next hopen =>
    obtain ⟨⟨es, rest⟩, hes, hn⟩ := Option.map_eq_some_iff.1 hn
    obtain ⟨rfl, rfl⟩ := Prod.mk.inj hn
    obtain ⟨ms, ds', hms, hagrees, hrest⟩ := hmembers hm htail.skipSpace hes
    refine ⟨.obj ms, ds', ?_, hagrees.agrees depth, hrest⟩
    split
    next heq =>
      obtain ⟨cs', hcs'⟩ := hclose.2 _ heq
      exact (hopen cs' hcs').elim
    next => rw [hms]; rfl

end

/-- A value is read alike if what is inside it is. -/
theorem followsValue_succ {fuel : Nat} (hitems : FollowsItems fuel)
    (hmembers : FollowsMembers fuel) : FollowsValue (fuel + 1) := by
  intro m depth cs ds rest n hm h hn
  obtain ⟨m, rfl⟩ : ∃ k, m = k + 1 := ⟨m - 1, by omega⟩
  have hm : fuel ≤ m := by omega
  rcases h.front with ⟨hcs, -⟩ | ⟨t, tail, tail', ht, hstops, htail, hcs, hds⟩
  · rw [Strict.value?, hcs] at hn
    cases hn
  rw [hds]
  cases t with
  | word w =>
    rw [strict_word hcs] at hn
    obtain ⟨rfl, rfl⟩ := Prod.mk.inj (Option.some.inj hn)
    exact ⟨w.tree, tail', relaxed_word w tail', w.agrees, htail⟩
  | number t =>
    obtain ⟨hstop, hstop'⟩ := hstops trivial
    rw [strict_number hcs hstop] at hn
    obtain ⟨rfl, rfl⟩ := Prod.mk.inj (Option.some.inj hn)
    exact ⟨_, tail', relaxed_number hstop', NumberToken.agrees ht, htail⟩
  | string t =>
    have hcs : Strict.skipSpace cs = '"' :: (StringToken.charsOf t.parts ++ tail) := hcs
    rw [strict_string hcs, StringToken.strict_eq t.wellSpelled] at hn
    obtain ⟨rfl, rfl⟩ := Prod.mk.inj (Option.some.inj hn)
    refine ⟨.str t.parts, tail', ?_, StringToken.agrees ht, htail⟩
    change Relaxed.value? (m + 1) ('"' :: (StringToken.charsOf t.parts ++ tail')) = _
    rw [relaxed_string, StringToken.relaxed_eq t.wellSpelled ht]
    rfl
  | mark p =>
    cases p with
    | openList => exact hitems.list hm htail hcs hn
    | openMap => exact hmembers.map hm htail hcs hn
    | closeList | closeMap | colon | comma =>
      -- no value starts with any other mark
      rw [strict_of_head hcs (by decide)] at hn
      cases hn

/-- Items are read alike if each of them is, and those after it. -/
theorem followsItems_succ {fuel : Nat} (hvalue : FollowsValue fuel) (hitems : FollowsItems fuel) :
    FollowsItems (fuel + 1) := by
  intro m depth cs ds rest ns hm h hns
  obtain ⟨m, rfl⟩ : ∃ k, m = k + 1 := ⟨m - 1, by omega⟩
  have hm : fuel ≤ m := by omega
  rw [Strict.items?] at hns
  obtain ⟨⟨n, cs₁⟩, hn, hns⟩ := Option.bind_eq_some_iff.1 hns
  obtain ⟨t, ds₁, ht, hagrees, h₁⟩ := hvalue hm h hn
  rw [Relaxed.items?, ht]
  dsimp only [Option.bind_eq_bind, Option.bind_some] at hns ⊢
  split at hns
  next cs₂ hcomma =>
    obtain ⟨ds₂, hds, h₂⟩ := (h₁.front_mark .comma).1 cs₂ hcomma
    obtain ⟨⟨ns, rest⟩, hmore, hns⟩ := Option.bind_eq_some_iff.1 hns
    obtain ⟨rfl, rfl⟩ := Prod.mk.inj (Option.some.inj hns)
    obtain ⟨ts, ds₃, hts, hrest, h₃⟩ := hitems hm h₂ hmore
    refine ⟨t :: ts, ds₃, ?_, .cons hagrees hrest, h₃⟩
    rw [hds]
    change (match Relaxed.skip ds₂ with
      | ']' :: rest => _
      | cs => _) = _
    split
    next heq =>
      -- a comma in front of the closing bracket is none of the strict text's
      obtain ⟨cs₃, hcs⟩ := (h₂.front_mark .closeList).2 _ heq
      rw [items?_close hcs] at hmore
      cases hmore
    next => rw [hts]; rfl
  next cs₂ hclose =>
    obtain ⟨ds₂, hds, h₂⟩ := (h₁.front_mark .closeList).1 cs₂ hclose
    obtain ⟨rfl, rfl⟩ := Prod.mk.inj (Option.some.inj hns)
    rw [hds]
    exact ⟨[t], ds₂, rfl, .cons hagrees .nil, h₂⟩
  next => cases hns

/-- Members are read alike if the value of each of them is, and those after it. -/
theorem followsMembers_succ {fuel : Nat} (hvalue : FollowsValue fuel)
    (hmembers : FollowsMembers fuel) : FollowsMembers (fuel + 1) := by
  intro m depth cs ds rest es hm h hes
  obtain ⟨m, rfl⟩ : ∃ k, m = k + 1 := ⟨m - 1, by omega⟩
  have hm : fuel ≤ m := by omega
  rw [Strict.members?] at hes
  split at hes
  next cs₁ hquote =>
    obtain ⟨key, cs₁, ds₁, hkey, rfl, hds, h₁⟩ := h.front_string hquote
    rw [StringToken.strict_eq key.wellSpelled] at hes
    have hparts : Relaxed.key? (Relaxed.skip ds) = some (key.parts, ds₁) := by
      rw [hds]
      exact StringToken.relaxed_eq key.wellSpelled hkey ds₁
    rw [Relaxed.members?, hparts]
    dsimp only [Option.bind_eq_bind, Option.bind_some] at hes ⊢
    split at hes
    next cs₂ hcolon =>
      obtain ⟨ds₂, hds₂, h₂⟩ := (h₁.front_mark .colon).1 cs₂ hcolon
      obtain ⟨⟨n, cs₃⟩, hn, hes⟩ := Option.bind_eq_some_iff.1 hes
      obtain ⟨t, ds₃, ht, hagrees, h₃⟩ := hvalue hm h₂ hn
      rw [hds₂]
      split at hes
      next cs₄ hcomma =>
        obtain ⟨ds₄, hds₄, h₄⟩ := (h₃.front_mark .comma).1 cs₄ hcomma
        obtain ⟨⟨es, rest⟩, hmore, hes⟩ := Option.bind_eq_some_iff.1 hes
        obtain ⟨rfl, rfl⟩ := Prod.mk.inj (Option.some.inj hes)
        obtain ⟨ms, ds₅, hms, hrest, h₅⟩ := hmembers hm h₄ hmore
        refine ⟨(key.parts, t) :: ms, ds₅, ?_, .cons hkey hagrees hrest, h₅⟩
        change (Relaxed.value? m (Relaxed.skip ds₂)).bind _ = _
        rw [ht, Option.bind_some, hds₄]
        change (match Relaxed.skip ds₄ with
          | '\x7d' :: rest => _
          | cs => _) = _
        split
        next heq =>
          obtain ⟨cs₅, hcs⟩ := (h₄.front_mark .closeMap).2 _ heq
          rw [members?_close hcs] at hmore
          cases hmore
        next => rw [hms]; rfl
      next cs₄ hclose =>
        obtain ⟨ds₄, hds₄, h₄⟩ := (h₃.front_mark .closeMap).1 cs₄ hclose
        obtain ⟨rfl, rfl⟩ := Prod.mk.inj (Option.some.inj hes)
        refine ⟨[(key.parts, t)], ds₄, ?_, .cons hkey hagrees .nil, h₄⟩
        change (Relaxed.value? m (Relaxed.skip ds₂)).bind _ = _
        rw [ht, Option.bind_some, hds₄]
        rfl
      next => cases hes
    next => cases hes
  next => cases hes

/-- Both readers go through a text alike. -/
theorem follows (fuel : Nat) :
    FollowsValue fuel ∧ FollowsItems fuel ∧ FollowsMembers fuel := by
  induction fuel with
  | zero =>
    refine ⟨?_, ?_, ?_⟩
    · intro _ _ _ _ _ _ _ _ h
      cases h
    · intro _ _ _ _ _ _ _ _ h
      cases h
    · intro _ _ _ _ _ _ _ _ h
      cases h
  | succ fuel ih =>
    obtain ⟨hvalue, hitems, hmembers⟩ := ih
    exact ⟨followsValue_succ hitems hmembers, followsItems_succ hvalue hitems,
      followsMembers_succ hvalue hmembers⟩

/-- A text with comments is read like the text without them. -/
theorem read_commented {text commented : String} {n : Node}
    (h : Commented Token.Portable text.toList commented.toList)
    (hn : Strict.node? text = some n) :
    ∃ j, Relaxed.read commented = .ok j ∧ Settled n j.wholeNumbers := by
  obtain ⟨⟨n', rest⟩, hvalue, hend⟩ := Option.bind_eq_some_iff.1 hn
  obtain ⟨hfollows, -, -⟩ := follows (text.toList.length + 1)
  obtain ⟨t, rest', ht, ⟨j, hj, hsettled⟩, hrest⟩ :=
    hfollows (Nat.add_le_add_right h.length_le 1) h hvalue
  dsimp only at hend
  split at hend
  next hnil =>
    obtain rfl := Option.some.inj hend
    have hskip : Relaxed.skip rest' = [] := by
      rcases hrest.front with ⟨-, hskip⟩ | ⟨t, cs, ds, -, -, -, hcs, -⟩
      · exact hskip
      · obtain ⟨c, tail, htoken, -⟩ := t.exists_head
        simp [hnil, htoken] at hcs
    have htree : Relaxed.tree? commented = some t := by
      rw [Relaxed.tree?, ht]
      dsimp only [Option.bind_eq_bind, Option.bind_some]
      rw [hskip]
    refine ⟨j.collapse, ?_, hsettled⟩
    rw [Relaxed.read, htree]
    dsimp only
    rw [hj]
    rfl
  next => cases hend

end LintConfig.Json
