import SpanningMesh.Tree.Json
import SpanningMesh.Proofs.Text.Json
import SpanningMesh.Proofs.Tree.Spelling

/-!
# Trees come back from JSON

The text of a tree is read as that tree, in either form (`json_round_trip`).  The members that the
writer leaves out are supplied by the reader, and the keys that stand in a text show which those are
(`keys`).

A tree has two brackets open at a time for each level, less one.  The reader stops at `maxNesting`,
so it reads the trees that are no deeper than 64 and no others.  `within?` is what it makes of a
tree when so many brackets may still be opened.  It follows the reader from a node to the trees
behind it (`within?_succ`), and the induction of `readWithin_writeObject` is on that number.

The writer builds a text from its end and the reader takes it from its front, so each part of an
object is read with any text behind it.  The reader also counts the items of its lists, down from
the length of the whole text.  There are at least as many characters as there are keys, and at least
as many keys as there are items.
-/

namespace SpanningMesh

namespace Tree

open Json (Blank EndsNumber)

variable {form : Form} {level length n : Nat} {id : UInt32} {root : Bool} {t : Tree}
  {ts : List Tree} {w rest cs : List Char} {subs : Scan (List Tree)} {f : Found}

/-! ## The layout -/

namespace Form

theorem blank_newline (form : Form) (level : Nat) : Blank (form.newline level) := by
  cases form with
  | compact => exact Json.blank_nil
  | pretty =>
      intro c h
      rcases List.mem_cons.mp h with rfl | inside
      · rfl
      · rw [List.eq_of_mem_replicate inside]
        rfl

/-- The blanks between the sign behind a key and the value. -/
def gap : Form → List Char
  | compact => []
  | pretty => [' ']

theorem blank_gap (form : Form) : Blank form.gap := by
  cases form with
  | compact => exact Json.blank_nil
  | pretty => exact List.forall_mem_singleton.mpr rfl

/-- A key is written on a new line, in quotes and with a colon behind it. -/
theorem key_append (form : Form) (level : Nat) (name : String) (cs : List Char) :
    form.key level name ++ cs =
      form.newline level ++ ('"' :: name.toList ++ '"' :: ':' :: (form.gap ++ cs)) := by
  cases form <;> simp [key, colon, gap]

end Form

/-! ## The parts of an object -/

/-- The array of the trees behind a node whose braces stand on a level. -/
def writeArray (form : Form) (level : Nat) (t : Tree) (ts : List Tree) (rest : List Char) :
    List Char :=
  '[' :: (form.newline (level + 2) ++ writeObject form (level + 2) t
    (writeMore form (level + 2) ts (form.newline (level + 1) ++ ']' :: rest)))

/-- The member of the trees behind a node, if there are any. -/
def writeSubs (form : Form) (level : Nat) : List Tree → List Char → List Char
  | [], rest => rest
  | t :: ts, rest => ',' :: (form.key (level + 1) "subs" ++ writeArray form level t ts rest)

/-- The member of the root flag, if it is set. -/
def writeRoot (form : Form) (level : Nat) (root : Bool) (rest : List Char) : List Char :=
  if root then ',' :: (form.key (level + 1) "root" ++ ("true".toList ++ rest)) else rest

/-- An object is written part by part. -/
theorem writeObject_eq (form : Form) (level : Nat) (t : Tree) (rest : List Char) :
    writeObject form level t rest =
      '\x7b' :: (form.key (level + 1) "nodeId" ++ (Nat.toDigits 10 t.id.toNat ++
        writeRoot form level t.root (writeSubs form level t.subs
          (form.newline level ++ '\x7d' :: rest)))) := by
  obtain ⟨id, root, subs⟩ := t
  cases subs <;> rfl

/-- More trees are written behind commas. -/
theorem writeMore_eq_foldr (form : Form) (level : Nat) (ts : List Tree) (rest : List Char) :
    writeMore form level ts rest =
      ts.foldr (fun t cs => ',' :: (form.newline level ++ writeObject form level t cs)) rest := by
  induction ts with
  | nil => rfl
  | cons t ts ih => rw [writeMore, ih, List.foldr_cons]

/-- Behind the id of a node stands a comma, a line or a brace. -/
theorem endsNumber_behind :
    EndsNumber (writeRoot form level root (writeSubs form level ts
      (form.newline level ++ '\x7d' :: rest))) := by
  cases root <;> cases ts <;> cases form <;> (rintro c ⟨⟩; decide)

/-! ## The keys of a text -/

mutual

/-- The keys of the members that the objects of a tree have, in the order of the text.  There is one
for the root flag only if that is set, and one for the trees behind a node only if there are any. -/
def keys : Tree → List String
  | ⟨_, root, subs⟩ =>
      "nodeId" :: ((if root then ["root"] else []) ++ (if subs = [] then [] else ["subs"])
        ++ keysOfAll subs)

/-- The keys of several trees, one tree after the other. -/
def keysOfAll : List Tree → List String
  | [] => []
  | t :: ts => t.keys ++ keysOfAll ts

end

/-- The keys of a tree come before those of the trees below it. -/
theorem keys_eq (t : Tree) :
    t.keys = "nodeId" :: ((if t.root then ["root"] else []) ++
      (if t.subs = [] then [] else ["subs"]) ++ keysOfAll t.subs) := by
  obtain ⟨id, root, subs⟩ := t
  rw [keys]

/-- A tree has more keys than branches. -/
theorem length_subs_lt_keys (t : Tree) : t.subs.length < t.keys.length := by
  have each (ts : List Tree) : ts.length ≤ (keysOfAll ts).length := by
    induction ts with
    | nil => exact Nat.le_refl _
    | cons t ts ih =>
        rw [keysOfAll, keys_eq, List.length_append, List.length_cons, List.length_cons]
        omega
  have all := each t.subs
  rw [keys_eq, List.length_cons, List.length_append]
  omega

/-- A branch has no more keys than the whole tree. -/
theorem length_keys_le {s : Tree} (h : s ∈ t.subs) : s.keys.length ≤ t.keys.length := by
  have each (ts : List Tree) (h : s ∈ ts) : s.keys.length ≤ (keysOfAll ts).length := by
    induction ts with
    | nil => cases h
    | cons t ts ih =>
        rw [keysOfAll, List.length_append]
        rcases List.mem_cons.mp h with rfl | behind
        · exact Nat.le_add_right _ _
        · exact Nat.le_add_left_of_le (ih behind)
  have all := each t.subs h
  rw [keys_eq t, List.length_cons, List.length_append]
  omega

theorem quoted_newline : Json.quoted (form.newline level ++ cs) = Json.quoted cs :=
  Json.quoted_append fun h => Bool.false_ne_true (form.blank_newline level _ h)

theorem quoted_brace : Json.quoted ('\x7d' :: cs) = Json.quoted cs :=
  Json.quoted_cons (by decide)

/-- Of a key the name is quoted. -/
theorem quoted_key {name : String} (plain : '"' ∉ name.toList) :
    Json.quoted (form.key level name ++ cs) = name :: Json.quoted cs := by
  have behind : '"' ∉ ':' :: form.gap := by cases form <;> decide
  have literal : Json.quoted ('"' :: name.toList ++ '"' :: (':' :: form.gap ++ cs)) = _ :=
    Json.quoted_literal plain
  rw [Json.quoted_append behind, String.ofList_toList] at literal
  rw [Form.key_append, quoted_newline]
  exact literal

theorem quoted_writeRoot : Json.quoted (writeRoot form level root cs) =
    (if root then ["root"] else []) ++ Json.quoted cs := by
  cases root with
  | false => rfl
  | true =>
      rw [writeRoot, if_pos rfl, Json.quoted_cons (by decide), quoted_key (by decide),
        Json.quoted_append (by decide)]
      rfl

theorem quoted_writeObject_eq (form : Form) (level : Nat) (t : Tree) (cs : List Char) :
    Json.quoted (writeObject form level t cs) =
      "nodeId" :: ((if t.root then ["root"] else []) ++
        Json.quoted (writeSubs form level t.subs (form.newline level ++ '\x7d' :: cs))) := by
  have digits : '"' ∉ Nat.toDigits 10 t.id.toNat := fun h =>
    Bool.false_ne_true (Nat.isDigit_of_mem_toDigits (by decide) (by decide) h)
  rw [writeObject_eq, Json.quoted_cons (by decide), quoted_key (by decide),
    Json.quoted_append digits, quoted_writeRoot]

mutual

/-- What stands between the quotes of the text of a tree are its keys. -/
theorem quoted_writeObject (form : Form) (level : Nat) :
    (t : Tree) → (cs : List Char) →
      Json.quoted (writeObject form level t cs) = t.keys ++ Json.quoted cs
  | ⟨id, root, []⟩, cs => by
      rw [quoted_writeObject_eq, writeSubs, quoted_newline, quoted_brace, keys, keysOfAll]
      simp
  | ⟨id, root, t :: ts⟩, cs => by
      have others := quoted_writeMore form (level + 2) ts
        (form.newline (level + 1) ++ ']' :: (form.newline level ++ '\x7d' :: cs))
      rw [quoted_newline, Json.quoted_cons (by decide), quoted_newline, quoted_brace] at others
      rw [quoted_writeObject_eq, writeSubs, Json.quoted_cons (by decide), quoted_key (by decide),
        writeArray, Json.quoted_cons (by decide), quoted_newline,
        quoted_writeObject form (level + 2) t, others, keys, keysOfAll]
      simp

/-- The text of several trees shows the keys of each in turn. -/
theorem quoted_writeMore (form : Form) (level : Nat) :
    (ts : List Tree) → (cs : List Char) →
      Json.quoted (writeMore form level ts cs) = keysOfAll ts ++ Json.quoted cs
  | [], cs => rfl
  | t :: ts, cs => by
      rw [writeMore, Json.quoted_cons (by decide), quoted_newline,
        quoted_writeObject form level t, quoted_writeMore form level ts, keysOfAll,
        List.append_assoc]

end

/-! ## Members -/

namespace Found

theorem readId_apply (new : f.id = none) :
    f.readId cs = (Json.natBelow UInt32.size cs).map fun r =>
      ({ f with id := some (UInt32.ofNat r.1) }, r.2) := by
  simp [readId, new, Scan.map_apply]

theorem readRoot_apply (new : f.root = none) :
    f.readRoot cs = (Json.bool cs).map fun r => ({ f with root := some r.1 }, r.2) := by
  simp [readRoot, new, Scan.map_apply]

theorem readSubs_apply (new : f.subs = none) :
    f.readSubs subs cs = (subs cs).map fun r => ({ f with subs := some r.1 }, r.2) := by
  simp [readSubs, new, Scan.map_apply]

/-- A member is read as its key says. -/
theorem member_key {name : String} (plain : name.toList.all Json.isPlain = true) :
    Json.member (readMember length subs) f (form.key level name ++ cs) =
      readMember length subs (some name.toList) f (form.gap ++ cs) := by
  rw [Form.key_append, Json.member_plain (form.blank_newline level) plain]

theorem member_id (new : f.id = none) (ends : EndsNumber cs) :
    Json.member (readMember length subs) f
        (form.key level "nodeId" ++ (Nat.toDigits 10 id.toNat ++ cs)) =
      some ({ f with id := some id }, cs) := by
  rw [member_key (by decide), readMember, if_pos rfl, readId_apply new,
    Json.natBelow_toDigits form.blank_gap id.toNat_lt ends, Option.map_some, UInt32.ofNat_toNat]

theorem member_root (new : f.root = none) :
    Json.member (readMember length subs) f (form.key level "root" ++ ("true".toList ++ cs)) =
      some ({ f with root := some true }, cs) := by
  rw [member_key (by decide), readMember, if_neg (by decide), if_pos rfl, readRoot_apply new,
    Json.bool_true form.blank_gap, Option.map_some]

theorem member_subs (new : f.subs = none) :
    Json.member (readMember length subs) f (form.key level "subs" ++ cs) =
      (subs (form.gap ++ cs)).map fun r => ({ f with subs := some r.1 }, r.2) := by
  rw [member_key (by decide), readMember, if_neg (by decide), if_neg (by decide), if_pos rfl,
    readSubs_apply new]

/-- An object begins with its first member. -/
theorem list_key (name : String) :
    Json.list '\x7d' (Json.member (readMember length subs)) n f (form.key level name ++ cs) =
      Json.separated '\x7d' (Json.member (readMember length subs)) n f
        (form.key level name ++ cs) := by
  have blank := form.blank_newline level
  rw [Form.key_append, List.cons_append]
  exact Json.list_cons blank rfl (by decide) (Json.member_append blank)

end Found

/-! ## Objects -/

section Objects

variable {read : Tree → Option Tree}

/-- A scan takes the array of the trees behind a node, and gives what a reading makes of them. -/
def Takes (subs : Scan (List Tree)) (read : Tree → Option Tree) (form : Form) (level : Nat) :
    List Tree → Prop
  | [] => True
  | t :: ts => ∀ lead cs, Blank lead →
      subs (lead ++ writeArray form level t ts cs) = ((t :: ts).mapM read).map (·, cs)

/-- What is found behind the root flag of an object, up to its end. -/
theorem continued_subs (takes : Takes subs read form level ts) (new : f.subs = none) :
    Json.continued '\x7d' (Json.member (Found.readMember length subs)) (n + 1) f
        (writeSubs form level ts (form.newline level ++ '\x7d' :: rest)) =
      (ts.mapM read).map fun us =>
        ({ f with subs := if ts = [] then none else some us }, rest) := by
  have blank := form.blank_newline level
  cases ts with
  | nil =>
      rw [writeSubs, Json.continued_close blank rfl (by decide)]
      obtain ⟨id, root, subs⟩ := f
      obtain rfl : subs = none := new
      rfl
  | cons t ts =>
      rw [writeSubs, Json.continued_comma, Json.separated_succ, Found.member_subs new,
        takes _ _ form.blank_gap]
      cases (t :: ts).mapM read with
      | none => rfl
      | some us => exact Json.continued_close blank rfl (by decide)

/-- What is found behind the id of an object, up to its end. -/
theorem continued_root (takes : Takes subs read form level ts) (fresh : f.root = none)
    (new : f.subs = none) :
    Json.continued '\x7d' (Json.member (Found.readMember length subs)) (n + 2) f
        (writeRoot form level root
          (writeSubs form level ts (form.newline level ++ '\x7d' :: rest))) =
      (ts.mapM read).map fun us =>
        ({ f with
            root := if root then some true else none
            subs := if ts = [] then none else some us }, rest) := by
  cases root with
  | false =>
      rw [writeRoot, if_neg Bool.false_ne_true, continued_subs takes new]
      obtain ⟨id, root, subs⟩ := f
      obtain rfl : root = none := fresh
      rfl
  | true =>
      rw [writeRoot, if_pos rfl, Json.continued_comma,
        Json.separated_of_eq (Found.member_root fresh),
        continued_subs takes (f := { f with root := some true }) new]
      rfl

/-- The members of an object are found as they were written. -/
theorem list_members (takes : Takes subs read form level ts) (enough : 3 ≤ length) :
    Json.list '\x7d' (Json.member (Found.readMember length subs)) length {}
        (form.key (level + 1) "nodeId" ++ (Nat.toDigits 10 id.toNat ++
          writeRoot form level root (writeSubs form level ts
            (form.newline level ++ '\x7d' :: rest)))) =
      (ts.mapM read).map fun us =>
        (⟨some id, if root then some true else none, if ts = [] then none else some us⟩, rest) := by
  obtain ⟨n, rfl⟩ := Nat.exists_eq_add_of_le' enough
  rw [Found.list_key, Json.separated_of_eq (Found.member_id rfl endsNumber_behind),
    continued_root takes rfl rfl]

/-- What was found of the members of an object is the tree again. -/
theorem tree?_found {us : List Tree} (h : ts.mapM read = some us) :
    (⟨some id, if root then some true else none, if ts = [] then none else some us⟩ : Found).tree? =
      some ⟨id, root, us⟩ := by
  have flag : (if root then some true else none).getD false = root := by cases root <;> rfl
  have subs : (if ts = [] then none else some us).getD [] = us := by
    split
    next none =>
      rw [none] at h
      exact Option.some.inj h
    next => rfl
  rw [Found.tree?, Option.map_some, flag, subs]

/-- An array of trees is read if each of them is. -/
theorem readArray_writeArray {element : Scan Tree} {count : Nat}
    (reads : ∀ s ∈ t :: ts, ∀ lead cs, Blank lead →
      element (lead ++ writeObject form (level + 2) s cs) = (read s).map (·, cs))
    (enough : ts.length < count) (blank : Blank w) :
    readArray count element (w ++ writeArray form level t ts cs) =
      ((t :: ts).mapM read).map (·, cs) := by
  have inner := form.blank_newline (level + 2)
  have outer := form.blank_newline (level + 1)
  have visible : Json.isBlank ']' = false := rfl
  have other : ']' ≠ ',' := by decide
  have bracket : Json.isBlank '[' = false := rfl
  have opens (cs : List Char) : ∃ c cs', writeObject form (level + 2) t cs = c :: cs' ∧
      Json.isBlank c = false ∧ c ≠ ']' := ⟨_, _, writeObject_eq .., rfl, by decide⟩
  rw [readArray, writeArray, Scan.bind_apply, Json.blanks_append blank, Json.blanks_cons bracket,
    Option.bind_some, Scan.bind_of_eq Scan.char_cons, Scan.bind_apply, writeMore_eq_foldr]
  show (Json.list ']' (Json.push element) count [] _).bind _ = _
  rw [Json.list_elements visible other inner outer inner opens reads enough]
  cases (t :: ts).mapM read with
  | none => rfl
  | some us => simp

end Objects

/-! ## Trees -/

/-- A tree, unless more than so many brackets are open at a time in its text. -/
def within? (n : Nat) (t : Tree) : Option Tree := if 2 * t.depth ≤ n + 1 then some t else none

/-- Nothing lies within a limit of no levels. -/
theorem within?_zero (t : Tree) : within? 0 t = none := by
  obtain ⟨id, root, subs⟩ := t
  exact if_neg (by rw [depth]; omega)

/-- What is asked of each tree is asked of all. -/
theorem mapM_ite {p : Tree → Prop} [DecidablePred p] (ts : List Tree) :
    ts.mapM (fun t => if p t then some t else none) = if ∀ t ∈ ts, p t then some ts else none := by
  induction ts with
  | nil => simp
  | cons t ts ih =>
      rw [List.mapM_cons, ih]
      by_cases first : p t
      · by_cases others : ∀ t ∈ ts, p t
        · rw [if_pos first, if_pos others, if_pos (List.forall_mem_cons.mpr ⟨first, others⟩)]
          rfl
        · rw [if_pos first, if_neg others, if_neg fun h => others (List.forall_mem_cons.mp h).2]
          rfl
      · rw [if_neg first, if_neg fun h => first (List.forall_mem_cons.mp h).1]
        rfl

/-- The brace of a node and the bracket around the trees behind it are two of those that are open. -/
theorem within?_succ (n : Nat) (t : Tree) :
    within? (n + 1) t = (t.subs.mapM (within? (n - 1))).map (Tree.mk t.id t.root) := by
  obtain ⟨id, root, subs⟩ := t
  have half : depthOfAll subs ≤ n / 2 ↔ ∀ s ∈ subs, 2 * s.depth ≤ n - 1 + 1 := by
    rw [depthOfAll_le_iff]
    exact forall₂_congr fun s _ => by omega
  have whole : 2 * (Tree.mk id root subs).depth ≤ n + 1 + 1 ↔
      ∀ s ∈ subs, 2 * s.depth ≤ n - 1 + 1 := by
    rw [← half, depth]
    omega
  have parts : subs.mapM (within? (n - 1)) = _ := mapM_ite subs
  rw [parts, within?]
  simp only [whole]
  split <;> rfl

/-- The reader of the trees behind a node. -/
def readBehind (length : Nat) : (nesting : Nat) → Scan (List Tree)
  | 0 => failure
  | inner + 1 => readArray length (readWithin length inner)

/-- An object is read by its members. -/
theorem readWithin_succ (blank : Blank w) :
    readWithin length (n + 1) (w ++ '\x7b' :: cs) =
      (Json.list '\x7d' (Json.member (Found.readMember length (readBehind length n))) length {}
        cs).bind fun r => r.1.tree?.map (·, r.2) := by
  have visible : Json.isBlank '\x7b' = false := rfl
  cases n <;>
    simp [readWithin, readBehind, Scan.bind_apply, Json.blanks_append blank,
      Json.blanks_cons visible] <;>
    exact congrArg _ (funext fun r => by cases r.1.tree? <;> rfl)

/-- The trees behind a node are taken as each of them is read with the brackets that are left. -/
theorem takes_readBehind (enough : ts.length < length)
    (reads : ∀ inner, n = inner + 1 → ∀ s ∈ ts, ∀ lead cs, Blank lead →
      readWithin length inner (lead ++ writeObject form (level + 2) s cs) =
        (within? inner s).map (·, cs)) :
    Takes (readBehind length n) (within? (n - 1)) form level ts := by
  cases ts with
  | nil => trivial
  | cons t ts =>
      intro lead cs blank
      cases n with
      | zero =>
          rw [List.mapM_cons, within?_zero]
          rfl
      | succ inner => exact readArray_writeArray (reads inner rfl) (Nat.lt_of_succ_lt enough) blank

/-- The object of a tree is read as the tree, or not at all if it needs more brackets than are
left. -/
theorem readWithin_writeObject (three : 3 ≤ length) (enough : t.keys.length ≤ length)
    (blank : Blank w) :
    readWithin length n (w ++ writeObject form level t cs) = (within? n t).map (·, cs) := by
  induction n using Nat.strong_induction_on generalizing t level w cs with
  | _ n ih =>
      cases n with
      | zero =>
          rw [within?_zero]
          rfl
      | succ n =>
          have takes : Takes (readBehind length n) (within? (n - 1)) form level t.subs :=
            takes_readBehind (t.length_subs_lt_keys.trans_le enough)
              fun inner eq s hs lead cs blank =>
                ih inner (by omega) ((length_keys_le hs).trans enough) blank
          rw [writeObject_eq, readWithin_succ blank, list_members takes three, within?_succ]
          cases found : t.subs.mapM (within? (n - 1)) with
          | none => rfl
          | some us => rw [Option.map_some, Option.bind_some, tree?_found found]; rfl

/-- The text of a tree, compact or pretty, is read as the tree itself, as long as it is no deeper
than the reader goes, which is 64.  A deeper one is refused.  The text has no keys but those of the
ids, the root flags that are set and the trees behind nodes, where there are any. -/
theorem json_round_trip (form : Form) (t : Tree) :
    ofJson? (t.toJson form) = (if t.depth ≤ 64 then some t else none) ∧
      Json.quoted (t.toJson form).toList = t.keys := by
  have literals : Json.quoted (t.writeObject form 0 []) = t.keys := by
    rw [quoted_writeObject, Json.quoted, List.append_nil]
  have enough : t.keys.length ≤ (t.writeObject form 0 []).length :=
    literals ▸ Json.length_quoted_le _
  have three : 3 ≤ (t.writeObject form 0 []).length := by
    rw [writeObject_eq, Form.key_append]
    simp only [List.length_cons, List.length_append]
    omega
  have read : readWithin (t.writeObject form 0 []).length maxNesting (t.writeObject form 0 []) =
      (within? maxNesting t).map (·, []) :=
    readWithin_writeObject (w := []) three enough Json.blank_nil
  have limit : within? maxNesting t = if t.depth ≤ 64 then some t else none := by
    simp only [within?, maxNesting]
    congr 1
    rw [eq_iff_iff]
    omega
  rw [ofJson?, toJson, String.toList_ofList]
  refine ⟨?_, literals⟩
  rw [← limit]
  apply Scan.all_of_map
  rw [Scan.bind_apply, read]
  cases within? maxNesting t <;> rfl

end Tree

end SpanningMesh
