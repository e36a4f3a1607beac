import NatsServer.Conf.ParseSafety
import NatsServer.Lib.Agree

/-!
# Pedantic mode only wraps the values

ParseWithChecks reads a text as Parse does, and keeps each value it sets in a token that carries
its item, whether a variable read it, and its file. `unwrapValue` of `opts.go` reads a token's
value; `Value.strip` does it at every depth. With the tokens stripped, the pedantic parser's
mapping is the plain parser's, and it fails where the plain one fails with the same error
(`ParseWithChecks_strip`).

The two parsers run side by side on the same lexer (`Strips`): the plain parser's contexts are
the pedantic one's stripped, the keys are the same, and the pedantic one has an item for each key.
Each item keeps that relation (`processItem_agree`), and so does the loop (`parseLoop_agree`).
A variable read from the environment is parsed by the same nested plain parser on both sides;
that its value holds no token to strip comes from the same result one level of fuel lower
(`parse_agree`).

In pedantic mode setValue puts nothing but a token into a map, so every value ParseWithChecks
returns is a token (`ParseWithChecks_tokens`): what ParseFileWithChecks returns for an include
is of that kind.
-/

namespace NatsServer.Conf

open NatsServer.Lib

mutual

def Value.strip : Value → Value
  | .token _ v _ _ => v.strip
  | .array vs => .array (Value.stripList vs)
  | .map m => .map (Value.stripMap m)
  | v => v

def Value.stripList : List Value → List Value
  | [] => []
  | v :: vs => v.strip :: Value.stripList vs

def Value.stripMap : List (List UInt8 × Value) → List (List UInt8 × Value)
  | [] => []
  | (k, v) :: m => (k, v.strip) :: Value.stripMap m

end

theorem Value.stripList_eq_map (vs : List Value) : Value.stripList vs = vs.map Value.strip := by
  induction vs with
  | nil => rfl
  | cons v vs ih => simp [Value.stripList, ih]

theorem Value.stripMap_eq_map (m : List (List UInt8 × Value)) :
    Value.stripMap m = m.map fun e => (e.1, e.2.strip) := by
  induction m with
  | nil => rfl
  | cons e m ih => simp [Value.stripMap, ih]

mutual

theorem Value.strip_strip : ∀ v : Value, v.strip.strip = v.strip
  | .token _ v _ _ => Value.strip_strip v
  | .array vs => by
    simp only [Value.strip]
    rw [Value.stripList_strip]
  | .map m => by
    simp only [Value.strip]
    rw [Value.stripMap_strip]
  | .str _ | .bool _ | .int _ | .float _ | .datetime _ => rfl

theorem Value.stripList_strip : ∀ vs : List Value, Value.stripList (Value.stripList vs) = Value.stripList vs
  | [] => rfl
  | v :: vs => by
    simp only [Value.stripList]
    rw [Value.strip_strip, Value.stripList_strip]

theorem Value.stripMap_strip :
    ∀ m : List (List UInt8 × Value), Value.stripMap (Value.stripMap m) = Value.stripMap m
  | [] => rfl
  | (k, v) :: m => by
    simp only [Value.stripMap]
    rw [Value.strip_strip, Value.stripMap_strip]

end

theorem find_stripMap (k : List UInt8) (m : List (List UInt8 × Value)) :
    Assoc.find k (Value.stripMap m) = (Assoc.find k m).map Value.strip := by
  rw [Value.stripMap_eq_map, Assoc.find_map_snd]

def Ctx.strip : Ctx → Ctx
  | .map m => .map (Value.stripMap m)
  | .array vs => .array (Value.stripList vs)

theorem Ctx.value_strip (c : Ctx) : c.strip.value = c.value.strip := by
  cases c <;> rfl

theorem findInCtxs_strip (name : List UInt8) :
    ∀ (i : Nat) (cs : List Ctx),
      findInCtxs name i (cs.map Ctx.strip) = (findInCtxs name i cs).map fun x => (x.1.strip, x.2)
  | _, [] => rfl
  | i, .map m :: cs => by
    simp only [List.map_cons, Ctx.strip, findInCtxs, find_stripMap]
    cases Assoc.find name m with
    | some v => rfl
    | none => exact findInCtxs_strip name (i + 1) cs
  | i, .array _ :: cs => findInCtxs_strip name (i + 1) cs

theorem markUsed_strip (key : List UInt8) :
    ∀ (i : Nat) (cs : List Ctx), (markUsed key i cs).map Ctx.strip = cs.map Ctx.strip
  | 0, .map m :: cs => by
    simp only [markUsed]
    split
    · rename_i it v used file hf
      simp only [List.map_cons, Ctx.strip, Value.stripMap_eq_map]
      rw [Assoc.set_map_snd_of_find key (Value.token it v true file) m Value.strip hf rfl]
    · rfl
  | i + 1, c :: cs => by simp [markUsed, markUsed_strip key i cs]
  | 0, .array _ :: _ => rfl
  | i, [] => by cases i <;> rfl

/-- The pedantic parser `P` and the plain parser `Q` between two items: at the same place of the
same lexer, `Q`'s contexts are `P`'s stripped, the keys are the same, `P` keeps an item for each
key, and the file is the same. -/
structure Strips (P Q : Parser) : Prop where
  lx : P.lx = Q.lx
  ctxs : P.ctxs.map Ctx.strip = Q.ctxs
  keys : P.keys = Q.keys
  ikeys : P.ikeys.length = P.keys.length
  fp : P.fp = Q.fp
  pedantic : P.pedantic = true
  plain : Q.pedantic = false

section Steps

variable {P Q : Parser}

theorem Strips.mapping (h : Strips P Q) : Q.mapping = Value.stripMap P.mapping := by
  unfold Parser.mapping
  rw [← h.ctxs, List.getLast?_map]
  rcases P.ctxs.getLast? with _ | ⟨m | vs⟩ <;> rfl

theorem Strips.with_lx (h : Strips P Q) (lx : Lexer) : Strips { P with lx } { Q with lx } :=
  ⟨rfl, h.ctxs, h.keys, h.ikeys, h.fp, h.pedantic, h.plain⟩

theorem Strips.pushContext (h : Strips P Q) (c : Ctx) :
    Strips (P.pushContext c) (Q.pushContext c.strip) :=
  ⟨h.lx, by simp [Parser.pushContext, ← h.ctxs], h.keys, h.ikeys, h.fp, h.pedantic, h.plain⟩

theorem Strips.pushKey (h : Strips P Q) (k : List UInt8) (it : Item) :
    Strips ((P.pushKey k).pushItemKey it) (Q.pushKey k) :=
  ⟨h.lx, h.ctxs, by simp [Parser.pushKey, Parser.pushItemKey, h.keys],
    by simp [Parser.pushKey, Parser.pushItemKey, h.ikeys], h.fp, h.pedantic, h.plain⟩

theorem Strips.markUsed (h : Strips P Q) (key : List UInt8) (i : Nat) :
    Strips { P with ctxs := markUsed key i P.ctxs } Q :=
  ⟨h.lx, by rw [markUsed_strip, h.ctxs], h.keys, h.ikeys, h.fp, h.pedantic, h.plain⟩

theorem Strips.popContext (h : Strips P Q) :
    Agree (fun a b => Strips a.1 b.1 ∧ a.2.strip = b.2) P.popContext Q.popContext := by
  have hc := h.ctxs
  unfold Parser.popContext
  match hP : P.ctxs, hQ : Q.ctxs, hc with
  | [], _, hc => rw [← hc]; exact rfl
  | [_], _, hc => rw [← hc]; exact rfl
  | c :: d :: rest, _, hc =>
    rw [← hc]
    exact ⟨⟨h.lx, by simp, h.keys, h.ikeys, h.fp, h.pedantic, h.plain⟩, rfl⟩

theorem Strips.setValue (h : Strips P Q) {it : Item} {v w : Value} {used : Bool}
    {file : List UInt8} (hw : w = v.strip) :
    Agree Strips (P.setValue (.token it v used file)) (Q.setValue w) := by
  have hc := h.ctxs
  unfold Parser.setValue
  match hP : P.ctxs, hQ : Q.ctxs, hc with
  | [], _, hc =>
    rw [← hc]
    exact h
  | .array vs :: rest, _, hc =>
    rw [← hc]
    refine ⟨h.lx, ?_, h.keys, h.ikeys, h.fp, h.pedantic, h.plain⟩
    simp [Ctx.strip, Value.stripList_eq_map, hw, Value.strip]
  | .map m :: rest, _, hc =>
    rw [← hc]
    simp only [Parser.popKey, ← h.keys]
    cases hk : P.keys with
    | nil => exact rfl
    | cons k ks =>
      -- the pedantic parser has an item for the key it takes
      obtain ⟨ik, iks, hik⟩ : ∃ ik iks, P.ikeys = ik :: iks :=
        List.exists_cons_of_ne_nil (by intro he; have := h.ikeys; rw [he, hk] at this; simp at this)
      have hlen : iks.length = ks.length := by have := h.ikeys; rw [hik, hk] at this; simpa using this
      simp only [bind, Except.bind, h.pedantic, h.plain, if_true, Bool.false_eq_true, if_false,
        Parser.popItemKey, hik]
      refine ⟨h.lx, ?_, rfl, hlen, h.fp, rfl, rfl⟩
      simp [Ctx.strip, Value.stripMap_eq_map, Assoc.set_map_snd, hw, Value.strip]

theorem Strips.tokenSet (h : Strips P Q) {it : Item} {v w : Value} {fp : List UInt8}
    (hw : w = v.strip) :
    Agree Strips (if P.pedantic then P.setValue (.token it v false fp) else P.setValue v)
      (if Q.pedantic then Q.setValue (.token it w false fp) else Q.setValue w) := by
  rw [if_pos h.pedantic, if_neg (by simp [h.plain])]
  exact h.setValue hw

end Steps

section Items

variable (uc : unicode.Tables) (env : List (List UInt8 × List UInt8))
  (parseFile : Bool → List UInt8 → List UInt8 → Except Err (List (List UInt8 × Value)))

def NestedPlain (nested : List (List UInt8) → List UInt8 → Except Err Parser) : Prop :=
  ∀ refs data q, nested refs data = .ok q → Value.stripMap q.mapping = q.mapping

theorem lookupVariable_agree {nested : List (List UInt8) → List UInt8 → Except Err Parser}
    {refs : List (List UInt8)} {P Q : Parser} (hn : NestedPlain nested) (h : Strips P Q)
    (name : List UInt8) :
    Agree (fun r r' => r.map (fun x => (x.1.strip, x.2)) = r')
      (P.lookupVariable env nested refs name) (Q.lookupVariable env nested refs name) := by
  unfold Parser.lookupVariable
  rw [← h.ctxs, findInCtxs_strip]
  split_ifs with hb hcyc
  · exact rfl
  · cases findInCtxs name 0 P.ctxs <;> exact rfl
  · cases findInCtxs name 0 P.ctxs with
    | some x => exact rfl
    | none =>
      dsimp only [Option.map_none]
      cases lookupEnv env name with
      | none => exact rfl
      | some vStr =>
        -- both read the value of the same nested parse, which is already stripped
        dsimp only
        cases hq : nested (name :: refs) (pkey ++ txt "=" ++ vStr) with
        | error e => exact rfl
        | ok q =>
          have hfix : (Assoc.find pkey q.mapping).map Value.strip = Assoc.find pkey q.mapping := by
            rw [← find_stripMap, hn _ _ _ hq]
          show ((Assoc.find pkey q.mapping).map fun v => (v, none)).map _ = _
          cases hv : Assoc.find pkey q.mapping with
          | none => rfl
          | some v =>
            rw [hv] at hfix
            simp only [Option.map_some, Option.some.injEq] at hfix ⊢
            rw [hfix]

theorem includeStep_agree {P Q : Parser} (h : Strips P Q) (k : List UInt8) {v : Value}
    (hv : v.IsToken) :
    Agree Strips ((P.pushIncludedKey k v).setValue v) ((Q.pushIncludedKey k v.strip).setValue v.strip) := by
  cases v with
  | token it w used file =>
    have h' := h.pushKey k it
    simp only [Parser.pushIncludedKey, Parser.pushKey, h.pedantic, h.plain, if_true,
      Bool.false_eq_true, if_false] at h' ⊢
    exact h'.setValue rfl
  | _ => exact absurd hv id

theorem processItem_agree {nested : List (List UInt8) → List UInt8 → Except Err Parser}
    {refs : List (List UInt8)} {P Q : Parser} (hn : NestedPlain nested)
    (hfile : ∀ f v, (parseFile true f v).map Value.stripMap = parseFile false f v)
    (htok : ∀ f v m, parseFile true f v = .ok m → ∀ kv ∈ m, kv.2.IsToken)
    (h : Strips P Q) (it : Item) (fp : List UInt8) :
    Agree Strips (P.processItem uc env parseFile nested refs it fp)
      (Q.processItem uc env parseFile nested refs it fp) := by
  unfold Parser.processItem
  simp only [h.pedantic, h.plain, if_true, Bool.false_eq_true, if_false]
  cases it.typ
  case itemError => exact rfl
  case itemNIL | itemEOF | itemText | itemCommentStart => exact h
  case itemKey => exact h.pushKey it.val it
  case itemMapStart => exact h.pushContext (.map [])
  case itemArrayStart => exact h.pushContext (.array [])
  case itemMapEnd | itemArrayEnd =>
    -- the plain parser pops the same context stripped, and sets its value stripped
    refine h.popContext.bind fun ⟨P', c⟩ ⟨Q', d⟩ ⟨hs, hc⟩ => ?_
    have hd : d.value = c.value.strip := by
      rw [← Ctx.value_strip]
      exact (congrArg Ctx.value hc).symm
    exact hs.tokenSet hd
  case itemString => exact h.setValue rfl
  case itemInteger =>
    refine (Agree.refl (R := Eq) fun _ => rfl).bind fun o o' ho => ?_
    subst ho
    cases o with
    | some n => exact h.setValue rfl
    | none => exact h
  case itemFloat =>
    cases strconv.ParseFloat it.val with
    | error e => cases e <;> exact rfl
    | ok x => exact h.setValue rfl
  case itemDatetime =>
    cases time.ParseZulu it.val with
    | some dt => exact h.setValue rfl
    | none => exact rfl
  case itemBool => exact Agree.ite (h.setValue rfl) (Agree.ite (h.setValue rfl) rfl)
  case itemVariable =>
    have hl := @lookupVariable_agree env nested refs P Q hn h it.val
    revert hl
    cases P.lookupVariable env nested refs it.val <;>
      cases Q.lookupVariable env nested refs it.val <;> intro hl
    case error.error e e' =>
      -- the same error, reported the same way
      cases hl
      cases e <;> exact rfl
    case ok.ok r r' =>
      subst hl
      cases r with
      | none => exact rfl
      | some x =>
        obtain ⟨value, loc⟩ := x
        -- the pedantic parser sets a token of the value a token holds
        cases value
        case token _ v _ _ =>
          cases loc with
          | some i =>
            -- the mode was read as set before the context is marked
            have hu : Strips { P with ctxs := markUsed it.val i P.ctxs, pedantic := true } Q := by
              have := h.markUsed it.val i
              rwa [h.pedantic] at this
            exact hu.setValue rfl
          | none => exact h.setValue rfl
        all_goals exact h.setValue rfl
    all_goals exact absurd hl id
  case itemInclude =>
    rw [h.fp, ← hfile]
    cases hm : parseFile true Q.fp it.val with
    | error e => cases e <;> exact rfl
    | ok m =>
      -- the plain parser reads the same file stripped, one value at a time
      show Agree Strips (m.foldlM _ P) ((Value.stripMap m).foldlM _ Q)
      rw [Value.stripMap_eq_map, List.foldlM_map]
      exact Agree.foldlM m (fun a b kv hkv hab =>
        includeStep_agree hab kv.1 (v := kv.2) (htok Q.fp it.val m hm kv hkv)) P Q h

theorem parseLoop_agree {nested : List (List UInt8) → List UInt8 → Except Err Parser}
    {refs : List (List UInt8)} (fp : List UInt8) (fuel : Nat) (hn : NestedPlain nested)
    (hfile : ∀ f v, (parseFile true f v).map Value.stripMap = parseFile false f v)
    (htok : ∀ f v m, parseFile true f v = .ok m → ∀ kv ∈ m, kv.2.IsToken) :
    ∀ (n : Nat) (P Q : Parser) (prev : Item), Strips P Q →
      Agree Strips (parseLoop uc env parseFile nested refs fp fuel n P prev)
        (parseLoop uc env parseFile nested refs fp fuel n Q prev)
  | 0, _, _, _, _ => rfl
  | n + 1, P, Q, prev, h => by
    rw [parseLoop, parseLoop, h.lx]
    cases Q.lx.nextItem uc fuel with
    | error e => exact rfl
    | ok x =>
      obtain ⟨it, lx⟩ := x
      have h' := h.with_lx lx
      dsimp only
      split_ifs
      · exact rfl
      · exact h'
      · exact (processItem_agree uc env parseFile hn hfile htok h' it fp).bind fun P' Q' h'' =>
          parseLoop_agree fp fuel hn hfile htok n P' Q' it h''

theorem parse_agree (hfile : ∀ f v, (parseFile true f v).map Value.stripMap = parseFile false f v)
    (htok : ∀ f v m, parseFile true f v = .ok m → ∀ kv ∈ m, kv.2.IsToken) :
    ∀ (fuel : Nat) (refs : List (List UInt8)) (data fp : List UInt8),
      Agree Strips (parse uc env parseFile fuel refs data fp true)
        (parse uc env parseFile fuel refs data fp false)
  | 0, _, _, _ => rfl
  | fuel + 1, refs, data, fp => by
    have hn : NestedPlain (fun refs data => parse uc env parseFile fuel refs data [] false) := by
      intro refs data q hq
      dsimp only at hq
      have ih := parse_agree hfile htok fuel refs data []
      rw [hq] at ih
      cases hp : parse uc env parseFile fuel refs data [] true with
      | error e => rw [hp] at ih; exact absurd ih id
      | ok p =>
        rw [hp] at ih
        rw [ih.mapping, Value.stripMap_strip]
    have h0 : Strips ((newParser data fp true).pushContext (.map []))
        ((newParser data fp false).pushContext (.map [])) :=
      ⟨rfl, rfl, rfl, rfl, rfl, rfl, rfl⟩
    exact parseLoop_agree uc env parseFile fp (fuel + 1) hn hfile htok (fuel + 1) _ _ zeroItem h0

/-- ParseWithChecks returns Parse's mapping with each value wrapped in tokens, and fails where
Parse fails with the same error, when the included files read the same way. -/
theorem ParseWithChecks_strip
    (hfile : ∀ f v, (parseFile true f v).map Value.stripMap = parseFile false f v)
    (htok : ∀ f v m, parseFile true f v = .ok m → ∀ kv ∈ m, kv.2.IsToken) (data : List UInt8) :
    (ParseWithChecks uc env parseFile data).map Value.stripMap = Parse uc env parseFile data := by
  have h := parse_agree uc env parseFile hfile htok (parseFuel env data) [] data []
  show Value.stripMap <$> (Parser.mapping <$> parse uc env parseFile (parseFuel env data) [] data [] true) =
    Parser.mapping <$> parse uc env parseFile (parseFuel env data) [] data [] false
  rw [Functor.map_map]
  exact h.map_eq fun P Q hPQ => hPQ.mapping.symm

theorem ParseWithChecks_strip_noIncludes :
    (∀ (f v : List UInt8), ((fun _ _ _ => .ok []) true f v :
        Except Err (List (List UInt8 × Value))).map Value.stripMap = (fun _ _ _ => .ok []) false f v) ∧
    (∀ (f v : List UInt8) (m : List (List UInt8 × Value)),
        ((fun _ _ _ => .ok []) true f v : Except Err (List (List UInt8 × Value))) = .ok m →
          ∀ kv ∈ m, kv.2.IsToken) ∧
    (ParseWithChecks ⟨fun _ => false, id⟩ [(txt "x", txt "2")] (fun _ _ _ => .ok [])
        (txt "a \x7b b = [1, $x] \x7d")).map Value.stripMap =
      Parse ⟨fun _ => false, id⟩ [(txt "x", txt "2")] (fun _ _ _ => .ok []) (txt "a \x7b b = [1, $x] \x7d") :=
  have hfile : ∀ (f v : List UInt8), ((fun _ _ _ => .ok []) true f v :
      Except Err (List (List UInt8 × Value))).map Value.stripMap = (fun _ _ _ => .ok []) false f v :=
    fun _ _ => rfl
  have htok : ∀ (f v : List UInt8) (m : List (List UInt8 × Value)),
      ((fun _ _ _ => .ok []) true f v : Except Err (List (List UInt8 × Value))) = .ok m →
        ∀ kv ∈ m, kv.2.IsToken := by
    intro f v m hm kv hkv
    cases hm
    simp at hkv
  ⟨hfile, htok, ParseWithChecks_strip _ _ _ hfile htok _⟩

end Items

section Tokens

def Ctx.Tokens : Ctx → Prop
  | .map m => ∀ kv ∈ m, kv.2.IsToken
  | .array _ => True

structure TokensOnly (P : Parser) : Prop where
  pedantic : P.pedantic = true
  ctxs : ∀ c ∈ P.ctxs, c.Tokens

variable {P : Parser}

theorem tokens_set {m : List (List UInt8 × Value)} (hm : ∀ kv ∈ m, kv.2.IsToken) (k : List UInt8)
    {v : Value} (hv : v.IsToken) : ∀ kv ∈ Assoc.set k v m, kv.2.IsToken := by
  intro kv hkv
  rcases Assoc.mem_set _ _ _ hkv with rfl | hkv
  · exact hv
  · exact hm kv hkv

theorem markUsed_tokens (key : List UInt8) :
    ∀ (i : Nat) (cs : List Ctx), (∀ c ∈ cs, c.Tokens) → ∀ c ∈ markUsed key i cs, c.Tokens
  | 0, .map m :: cs, hcs => by
    obtain ⟨hm, hrest⟩ := List.forall_mem_cons.mp hcs
    simp only [markUsed]
    split
    · exact List.forall_mem_cons.mpr ⟨tokens_set hm key trivial, hrest⟩
    · exact hcs
  | i + 1, c :: cs, hcs => by
    obtain ⟨hc, hrest⟩ := List.forall_mem_cons.mp hcs
    exact List.forall_mem_cons.mpr ⟨hc, markUsed_tokens key i cs hrest⟩
  | 0, .array _ :: _, hcs => hcs
  | i, [], hcs => by cases i <;> exact hcs

theorem TokensOnly.setValue (h : TokensOnly P) (v : Value) :
    Within (fun _ => True) TokensOnly (P.setValue v) := by
  have hc := h.ctxs
  unfold Parser.setValue
  match hP : P.ctxs, hc with
  | [], _ => exact h
  | .array vs :: rest, hc =>
    obtain ⟨-, hrest⟩ := List.forall_mem_cons.mp hc
    exact ⟨h.pedantic, List.forall_mem_cons.mpr ⟨trivial, hrest⟩⟩
  | .map m :: rest, hc =>
    obtain ⟨hm, hrest⟩ := List.forall_mem_cons.mp hc
    simp only [Parser.popKey]
    cases P.keys with
    | nil => trivial
    | cons k ks =>
      simp only [bind, Except.bind, h.pedantic, if_true]
      cases v
      case token it w used file =>
        simp only [Parser.popItemKey]
        cases P.ikeys with
        | nil => trivial
        | cons ik iks =>
          exact ⟨rfl, List.forall_mem_cons.mpr ⟨tokens_set hm k trivial, hrest⟩⟩
      -- any other value is dropped: only the key is taken
      all_goals exact ⟨rfl, hP ▸ hc⟩

theorem TokensOnly.tokenSet (h : TokensOnly P) (it : Item) (v : Value) (fp : List UInt8) :
    Within (fun _ => True) TokensOnly
      (if P.pedantic then P.setValue (.token it v false fp) else P.setValue v) :=
  Within.ite (h.setValue _) (h.setValue _)

theorem TokensOnly.pushContext (h : TokensOnly P) {c : Ctx} (hc : c.Tokens) :
    TokensOnly (P.pushContext c) :=
  ⟨h.pedantic, List.forall_mem_cons.mpr ⟨hc, h.ctxs⟩⟩

theorem TokensOnly.mapping (h : TokensOnly P) : ∀ kv ∈ P.mapping, kv.2.IsToken := by
  intro kv hkv
  unfold Parser.mapping at hkv
  split at hkv
  · rename_i m hl
    exact h.ctxs (.map m) (List.mem_of_getLast? hl) kv hkv
  · exact absurd hkv List.not_mem_nil

theorem TokensOnly.popContext (h : TokensOnly P) :
    Within (fun _ => True) (fun x => TokensOnly x.1) P.popContext := by
  have hc := h.ctxs
  unfold Parser.popContext
  match hP : P.ctxs, hc with
  | [], _ => trivial
  | [_], _ => trivial
  | c :: d :: rest, hc => exact ⟨h.pedantic, (List.forall_mem_cons.mp hc).2⟩

theorem TokensOnly.pushIncludedKey (h : TokensOnly P) (k : List UInt8) (v : Value) :
    TokensOnly (P.pushIncludedKey k v) := by
  unfold Parser.pushIncludedKey
  dsimp only
  split
  · split <;> exact ⟨h.pedantic, h.ctxs⟩
  · exact ⟨h.pedantic, h.ctxs⟩

variable (uc : unicode.Tables) (env : List (List UInt8 × List UInt8))
  (parseFile : Bool → List UInt8 → List UInt8 → Except Err (List (List UInt8 × Value)))

theorem processItem_tokens {nested : List (List UInt8) → List UInt8 → Except Err Parser}
    {refs : List (List UInt8)} (h : TokensOnly P) (it : Item) (fp : List UInt8) :
    Within (fun _ => True) TokensOnly (P.processItem uc env parseFile nested refs it fp) := by
  unfold Parser.processItem
  cases it.typ <;> dsimp only
  case itemError => trivial
  case itemNIL | itemEOF | itemText | itemCommentStart => exact h
  case itemKey => split <;> exact ⟨h.pedantic, h.ctxs⟩
  case itemMapStart => exact h.pushContext fun _ hkv => absurd hkv List.not_mem_nil
  case itemArrayStart => exact h.pushContext trivial
  case itemMapEnd | itemArrayEnd =>
    exact h.popContext.bind fun x hx => hx.tokenSet it x.2.value fp
  case itemString => exact h.tokenSet it _ fp
  case itemInteger =>
    refine Within.bind (P := fun _ => True) ?_ fun o _ => ?_
    · cases integerValue uc it.val <;> trivial
    · cases o with
      | some n => exact h.tokenSet it _ fp
      | none => exact h
  case itemFloat | itemDatetime =>
    split
    all_goals first | trivial | exact h.tokenSet it _ fp
  case itemBool => exact Within.ite (h.tokenSet it _ fp) (Within.ite (h.tokenSet it _ fp) trivial)
  case itemVariable =>
    split
    · trivial
    · trivial
    · trivial
    · split
      · split
        · -- the looked-up token is marked used in a map of tokens
          refine TokensOnly.setValue ?_ _
          exact ⟨h.pedantic, markUsed_tokens _ _ _ h.ctxs⟩
        all_goals exact h.setValue _
      · exact h.setValue _
  case itemInclude =>
    split
    · trivial
    · trivial
    · exact Within.foldlM (fun b kv hb => (hb.pushIncludedKey kv.1 kv.2).setValue kv.2) _ P h

theorem parseLoop_tokens {nested : List (List UInt8) → List UInt8 → Except Err Parser}
    {refs : List (List UInt8)} (fp : List UInt8) (fuel : Nat) :
    ∀ (n : Nat) (P : Parser) (prev : Item), TokensOnly P →
      Within (fun _ => True) TokensOnly (parseLoop uc env parseFile nested refs fp fuel n P prev)
  | 0, _, _, _ => trivial
  | n + 1, P, prev, h => by
    rw [parseLoop]
    cases P.lx.nextItem uc fuel with
    | error e => trivial
    | ok x =>
      obtain ⟨it, lx⟩ := x
      have h' : TokensOnly { P with lx } := ⟨h.pedantic, h.ctxs⟩
      dsimp only
      split_ifs
      · trivial
      · exact h'
      · exact (processItem_tokens uc env parseFile h' it fp).bind fun P' hP' =>
          parseLoop_tokens fp fuel n P' it hP'

/-- ParseWithChecks fails, or returns a mapping whose every value is a token. -/
theorem ParseWithChecks_tokens (data : List UInt8) :
    Within (fun _ => True) (fun m => ∀ kv ∈ m, kv.2.IsToken) (ParseWithChecks uc env parseFile data) := by
  have h0 : TokensOnly ((newParser data [] true).pushContext (.map [])) :=
    TokensOnly.pushContext ⟨rfl, fun _ hc => absurd hc List.not_mem_nil⟩ fun _ hkv => absurd hkv List.not_mem_nil
  have hrun : Within (fun _ => True) TokensOnly
      (parse uc env parseFile (parseFuel env data) [] data [] true) := by
    cases hf : parseFuel env data with
    | zero => trivial
    | succ fuel => exact parseLoop_tokens uc env parseFile [] (fuel + 1) (fuel + 1) _ zeroItem h0
  exact hrun.map fun P hP => hP.mapping

end Tokens

end NatsServer.Conf
