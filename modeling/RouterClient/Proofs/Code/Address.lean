import RouterClient.Code.RouteClass
import RouterClient.Proofs.Route.Nesting

/-! # Addresses of route classes

Every class writes down how its address comes from that of the class around it, and every method how
the address that it calls comes from its class's.  Read back from the written lines, the steps from
the root to a method give the base address, a slash and the segments with points between them.
-/

namespace RouterClient.Code

open Route (join)

/-- The inside of a literal, from behind its opening quote, and what follows the closing one. -/
def splitLiteral? : List Char → Option (List Char × List Char)
  | [] => none
  | '"' :: rest => some ([], rest)
  | '\\' :: c :: rest => (splitLiteral? rest).map fun found => ('\\' :: c :: found.1, found.2)
  | c :: rest => (splitLiteral? rest).map fun found => (c :: found.1, found.2)

theorem escapeChar_cases (c : Char) :
    (escapeChar c = [c] ∧ c ≠ '"' ∧ c ≠ '\\') ∨
      ∃ d, escapeChar c = ['\\', d] ∧ unescapeChar? d = some c := by
  unfold escapeChar
  split
  · next same =>
    subst same
    exact .inr ⟨'"', rfl, rfl⟩
  split
  · next same =>
    subst same
    exact .inr ⟨'\\', rfl, rfl⟩
  split
  · next same =>
    subst same
    exact .inr ⟨'n', rfl, rfl⟩
  split
  · next same =>
    subst same
    exact .inr ⟨'r', rfl, rfl⟩
  split
  · next same =>
    subst same
    exact .inr ⟨'t', rfl, rfl⟩
  · next quote slash _ _ _ => exact .inl ⟨rfl, quote, slash⟩

theorem splitLiteral?_escape (text rest : List Char) :
    splitLiteral? (escape text ++ '"' :: rest) = some (escape text, rest) := by
  induction text with
  | nil => rfl
  | cons c text ih =>
      rcases escapeChar_cases c with ⟨plain, _, slash⟩ | ⟨d, escaped, _⟩
      · simp [plain, splitLiteral?, slash, ih]
      · simp [escaped, splitLiteral?, ih]

theorem unescape?_escape (text : List Char) : unescape? (escape text) = some text := by
  induction text with
  | nil => rfl
  | cons c text ih =>
      rcases escapeChar_cases c with ⟨plain, _, slash⟩ | ⟨d, escaped, meant⟩
      · simp [plain, unescape?, slash, ih]
      · simp [escaped, unescape?, meant, ih]

/-- What adding a segment does to an address. -/
def Appending.append (way : Appending) (address segment : String) : String :=
  match way with
  | .component => address ++ "/" ++ segment
  | .afterPoint => address ++ "." ++ segment

/-- The segment that a call adds to an address, and what follows the call. -/
def readCall? (way : Appending) (text : List Char) : Option (String × List Char) := do
  let literal ← text.dropPrefix? ("." ++ way.method ++ "(\"").toList
  let (inside, rest) ← splitLiteral? literal
  let segment ← unescape? inside
  let rest ← rest.dropPrefix? [')']
  return (.ofList segment, rest)

/-- What an expression comes to that starts from a named address, and what follows it. -/
def readAddress? (name address : String) (text : List Char) : Option (String × List Char) := do
  let rest ← text.dropPrefix? name.toList
  match readCall? .component rest, readCall? .afterPoint rest with
  | some (segment, rest), _ => return (Appending.append .component address segment, rest)
  | none, some (segment, rest) => return (Appending.append .afterPoint address segment, rest)
  | none, none => return (address, rest)

/-- The expression for the address of a class. -/
def addressLine? : Lines → Option String
  | first :: second :: more =>
    if first = "fileprivate var url: URL \x7b" then some second
    else addressLine? (second :: more)
  | _ => none

/-- The address of a class, as the class writes it down, from that of the class around it. -/
def RouteClass.address? (style : Style) (depth : Nat) (around : String) (cls : RouteClass) :
    Option String := do
  let line ← addressLine? (cls.lines style depth)
  let name := if depth = 0 then "baseUrl" else "clientData.url"
  match readAddress? name around line.toList with
  | some (address, []) => some address
  | _ => none

/-- The address that a method calls, as the method writes it down, from that of its class. -/
def Method.address? (style : Style) (depth : Nat) (own : String) (method : Method) :
    Option String := do
  let call ← (method.lines style depth).dropLast.getLast?
  let argument ← (call.toList.dropWhile (· ≠ '(')).dropPrefix? "(url: ".toList
  let (address, rest) ← readAddress? "url" own argument
  let _ ← rest.dropPrefix? ", middlewares: ".toList
  return address

/-- The address that a method calls in the last of some classes, each nested in the one before it. -/
def calledAddress? (style : Style) (method : Method) : (depth : Nat) → (around : String) →
    List RouteClass → Option String
  | _, _, [] => none
  | depth, around, [last] => do
    let own ← last.address? style depth around
    method.address? style depth own
  | depth, around, cls :: next :: more => do
    let own ← cls.address? style depth around
    calledAddress? style method (depth + 1) own (next :: more)

/-- A method of the last of some classes, each nested in the one before it. -/
inductive RouteClass.Offers : RouteClass → List RouteClass → Method → Prop where
  | own {cls method} : method ∈ cls.methods → Offers cls [cls] method
  | nested {cls child chain method} :
      child ∈ cls.children → Offers child chain method → Offers cls (cls :: chain) method

/-- The segments that lead to a method through some classes, of which the first is the root. -/
def pathSegments (chain : List RouteClass) (method : Method) : List String :=
  chain.tail.map RouteClass.segment ++ [method.key]

theorem literal_toList (text : String) :
    (literal text).toList = '"' :: escape text.toList ++ ['"'] :=
  String.toList_ofList

theorem readCall?_text (way : Appending) (segment : String) (rest : List Char) :
    readCall? way (("." ++ way.method ++ "(" ++ literal segment ++ ")").toList ++ rest) =
      some (segment, rest) := by
  have written : ("." ++ way.method ++ "(" ++ literal segment ++ ")").toList ++ rest =
      ("." ++ way.method ++ "(\"").toList ++
        (escape segment.toList ++ '"' :: ([')'] ++ rest)) := by
    simp [String.toList_append, literal_toList]
  have closed : ([')'] ++ rest).dropPrefix? [')'] = some rest :=
    List.dropPrefix?_append_of_beq _ BEq.rfl
  rw [written, readCall?, List.dropPrefix?_append_of_beq _ BEq.rfl]
  simp only [Option.bind_eq_bind, Option.bind_some, splitLiteral?_escape, unescape?_escape, closed,
    String.ofList_toList, Option.pure_def]

/-- The two calls are told apart by their names. -/
theorem readCall?_component_of_afterPoint (segment : String) (rest : List Char) :
    readCall? .component
      (("." ++ Appending.afterPoint.method ++ "(" ++ literal segment ++ ")").toList ++ rest) =
        none := by
  simp only [String.toList_append, List.append_assoc]
  rfl

theorem readAddress?_step (name address : String) (step : AddressStep) (rest : List Char) :
    readAddress? name address ((step.text name).toList ++ rest) =
      some (step.way.append address step.segment, rest) := by
  obtain ⟨way, segment⟩ := step
  have written : (AddressStep.text name ⟨way, segment⟩).toList ++ rest =
      name.toList ++ (("." ++ way.method ++ "(" ++ literal segment ++ ")").toList ++ rest) := by
    simp [AddressStep.text, String.toList_append]
  rw [written, readAddress?, List.dropPrefix?_append_of_beq _ BEq.rfl]
  cases way with
  | component =>
      simp only [Option.bind_eq_bind, Option.bind_some, readCall?_text, Option.pure_def]
  | afterPoint =>
      simp only [Option.bind_eq_bind, Option.bind_some, readCall?_text,
        readCall?_component_of_afterPoint, Option.pure_def]

theorem addressLine?_skip {before : Lines} {line : String} {rest : Lines}
    (clear : "fileprivate var url: URL \x7b" ∉ before) :
    addressLine? (before ++ Lines.block "fileprivate var url: URL" [line] ++ rest) =
      some line := by
  induction before with
  | nil => rfl
  | cons first before ih =>
      simp only [List.mem_cons, not_or] at clear
      cases before with
      | nil => simp [addressLine?, Ne.symm clear.1, Lines.block]
      | cons second before =>
          have found := ih clear.2
          simp only [List.cons_append] at found ⊢
          rw [addressLine?, if_neg (Ne.symm clear.1)]
          exact found

/-- A line that starts with another letter is not the start of a class's address. -/
theorem ne_of_head {line : String} (head : line.toList.head? ≠ some 'f') :
    "fileprivate var url: URL \x7b" ≠ line := by
  rintro rfl
  exact head rfl

theorem RouteClass.accessors_clear (style : Style) (children : List RouteClass) :
    "fileprivate var url: URL \x7b" ∉ accessors style children := by
  unfold accessors
  split
  · exact List.not_mem_nil
  · simp only [List.mem_append, List.mem_flatMap, accessorLines, Lines.block, not_or]
    refine ⟨?_, by simp⟩
    rintro ⟨child, _, listed⟩
    simp only [List.cons_append, List.nil_append, List.mem_cons, List.not_mem_nil, or_false]
      at listed
    rcases listed with same | same | same | same
    · exact ne_of_head (by simp [String.toList_append]) same
    · exact ne_of_head (by cases style.access <;> simp [Access.modifier, String.toList_append]) same
    · exact ne_of_head (by simp [String.toList_append]) same
    · exact ne_of_head (by simp) same

theorem RouteClass.head_clear (style : Style) (name : String) :
    "fileprivate var url: URL \x7b" ≠
      style.access.modifier ++ "class " ++ name ++ ": TRPCClientData" ++ " \x7b" :=
  ne_of_head (by cases style.access <;> simp [Access.modifier, String.toList_append])

/-- The first address line in a class is its own, as the classes nested in it come last. -/
theorem addressLine?_class (style : Style) (name line : String) (children : List RouteClass)
    {start : Lines} (finish rest : Lines) (clear : "fileprivate var url: URL \x7b" ∉ start) :
    addressLine? (Lines.block (style.access.modifier ++ "class " ++ name ++ ": TRPCClientData")
      (RouteClass.accessors style children ++
        (start ++ Lines.block "fileprivate var url: URL" [line] ++ finish) ++ rest)) =
      some line := by
  let head := style.access.modifier ++ "class " ++ name ++ ": TRPCClientData" ++ " \x7b"
  have split : Lines.block (style.access.modifier ++ "class " ++ name ++ ": TRPCClientData")
      (RouteClass.accessors style children ++
        (start ++ Lines.block "fileprivate var url: URL" [line] ++ finish) ++ rest) =
      (head :: RouteClass.accessors style children ++ start) ++
        Lines.block "fileprivate var url: URL" [line] ++ (finish ++ rest ++ ["\x7d"]) := by
    simp [Lines.block, head]
  rw [split]
  apply addressLine?_skip
  simp only [List.cons_append, List.mem_cons, List.mem_append, not_or]
  exact ⟨RouteClass.head_clear style name, RouteClass.accessors_clear style children, clear⟩

namespace RouteClass

theorem addressLine?_root (style : Style) (root : RouteClass) :
    addressLine? (root.lines style 0) = some "baseUrl" := by
  obtain ⟨name, segment, models, methods, children⟩ := root
  let address :=
    if style.shared then
      [style.access.modifier ++ "static let shared = " ++ name ++ "()", "",
        style.access.modifier ++ "var baseUrl: URL!"]
    else ["private var baseUrl: URL"]
  have clear : "fileprivate var url: URL \x7b" ∉
      address ++ ["private var baseMiddlewares: [TRPCMiddleware] = []", ""] := by
    simp only [address, List.mem_append, not_or]
    refine ⟨?_, by simp⟩
    cases style.shared with
    | true =>
        simp only [if_true, List.mem_cons, List.not_mem_nil, or_false, not_or]
        refine ⟨ne_of_head ?_, by simp, ne_of_head ?_⟩ <;>
          cases style.access <;> simp [Access.modifier, String.toList_append]
    | false => simp
  have found := addressLine?_class style name "baseUrl" children
    ([""] ++ Lines.block "fileprivate var middlewares: [TRPCMiddleware]" ["baseMiddlewares"] ++
      [""] ++ Lines.block (style.access.modifier ++ "init(baseUrl: URL" ++
        (if style.shared then "? = nil" else "") ++ ", middlewares: [TRPCMiddleware] = [])")
        ["self.baseUrl = baseUrl", "self.baseMiddlewares = middlewares"])
    (Lines.afterBlank (Declaration.modelLines models) ++
      (methods.flatMap (fun method => "" :: method.lines style 0) ++
        childLines style 1 children)) clear
  rw [← found, lines, rootMembers]
  simp only [address, List.append_assoc]

theorem addressLine?_below (style : Style) (depth : Nat) (cls : RouteClass) :
    addressLine? (cls.lines style (depth + 1)) =
      some ((AddressStep.after depth cls.segment).text "clientData.url") := by
  obtain ⟨name, segment, models, methods, children⟩ := cls
  have clear : "fileprivate var url: URL \x7b" ∉
      ["fileprivate let clientData: TRPCClientData", ""] := by
    simp
  have found := addressLine?_class style name
    ((AddressStep.after depth segment).text "clientData.url") children
    ([""] ++ Lines.block "fileprivate var middlewares: [TRPCMiddleware]"
      ["clientData.middlewares"] ++ [""] ++
      Lines.block "fileprivate init(clientData: TRPCClientData)" ["self.clientData = clientData"])
    (Lines.afterBlank (Declaration.modelLines models) ++
      (methods.flatMap (fun method => "" :: method.lines style (depth + 1)) ++
        childLines style (depth + 1 + 1) children)) clear
  rw [← found, lines, spaceMembers]
  simp only [List.append_assoc]

theorem address?_root (style : Style) (base : String) (root : RouteClass) :
    root.address? style 0 base = some base := by
  have read : readAddress? "baseUrl" base "baseUrl".toList = some (base, []) := rfl
  simp only [address?, addressLine?_root, Option.bind_eq_bind, Option.bind_some, if_true, read]

theorem address?_below (style : Style) (depth : Nat) (around : String) (cls : RouteClass) :
    cls.address? style (depth + 1) around =
      some ((AddressStep.after depth cls.segment).way.append around cls.segment) := by
  have read := readAddress?_step "clientData.url" around (AddressStep.after depth cls.segment) []
  rw [List.append_nil] at read
  simp only [address?, addressLine?_below, Option.bind_eq_bind, Option.bind_some,
    Nat.add_one_ne_zero, if_false, read]
  rfl

end RouteClass

theorem Method.callLine (style : Style) (depth : Nat) (method : Method) :
    (method.lines style depth).dropLast.getLast? =
      some (method.callStart ++ "TRPCClient.shared." ++ sender method.kind ++
        "(" ++ method.arguments depth ++ ")") := by
  simp only [lines, Lines.block]
  rw [← List.append_assoc, List.dropLast_concat, List.getLast?_append]
  rfl

/-- The first bracket of the line opens the arguments. -/
theorem Method.dropWhile_call (method : Method) (rest : List Char) :
    ((method.callStart ++ "TRPCClient.shared." ++ sender method.kind).toList ++
      '(' :: rest).dropWhile (· ≠ '(') = '(' :: rest := by
  have start : '(' ∉ method.callStart.toList := by
    unfold callStart
    split <;> decide
  have called : '(' ∉ (sender method.kind).toList := by
    cases method.kind <;> decide
  have plain : '(' ∉
      (method.callStart ++ "TRPCClient.shared." ++ sender method.kind).toList := by
    simp only [String.toList_append, List.mem_append, not_or]
    exact ⟨⟨start, by decide⟩, called⟩
  rw [List.dropWhile_append_of_pos]
  · rfl
  · intro c listed
    simpa using fun same : c = '(' => plain (same ▸ listed)

theorem Method.address?_eq (style : Style) (depth : Nat) (own : String) (method : Method) :
    method.address? style depth own =
      some ((AddressStep.after depth method.key).way.append own method.key) := by
  have line : (method.callStart ++ "TRPCClient.shared." ++ sender method.kind ++ "(" ++
      method.arguments depth ++ ")").toList =
      (method.callStart ++ "TRPCClient.shared." ++ sender method.kind).toList ++
        '(' :: ((method.arguments depth).toList ++ [')']) := by
    simp [String.toList_append]
  obtain ⟨input, same⟩ : ∃ input, '(' :: ((method.arguments depth).toList ++ [')']) =
      "(url: ".toList ++ (((AddressStep.after depth method.key).text "url").toList ++
        (", middlewares: ".toList ++ input)) := by
    refine ⟨("middlewares, input: " ++ if method.input.isSome then "input"
      else "TRPCClient.EmptyObject()").toList ++ [')'], ?_⟩
    simp [arguments, String.toList_append]
  rw [address?, callLine, Option.bind_eq_bind, Option.bind_some, line, dropWhile_call, same,
    List.dropPrefix?_append_of_beq _ BEq.rfl]
  simp only [Option.bind_eq_bind, Option.bind_some, readAddress?_step,
    List.dropPrefix?_append_of_beq _ BEq.rfl]
  rfl

/-- The address that some segments lead to, with `depth` segments before them. -/
def addressOf : (depth : Nat) → (around : String) → List String → String
  | _, around, [] => around
  | depth, around, step :: more =>
    addressOf (depth + 1) ((AddressStep.after depth step).way.append around step) more

theorem addressOf_below (depth : Nat) (around step : String) (more : List String) :
    addressOf (depth + 1) (around ++ step) more = around ++ join (step :: more) := by
  induction more generalizing depth around step with
  | nil => simp [addressOf, join]
  | cons next more ih =>
      have pointed : (AddressStep.after (depth + 1) next).way.append (around ++ step) next =
          around ++ step ++ "." ++ next := rfl
      rw [addressOf, pointed, ih, join, join, String.intercalate_cons_cons]
      simp only [String.append_assoc]

theorem addressOf_root (base : String) {steps : List String} (nonempty : steps ≠ []) :
    addressOf 0 base steps = base ++ "/" ++ join steps := by
  obtain ⟨step, more, rfl⟩ := List.exists_cons_of_ne_nil nonempty
  exact addressOf_below 0 (base ++ "/") step more

namespace RouteClass.Offers

variable {cls : RouteClass} {chain : List RouteClass} {method : Method}

theorem exists_cons (offers : cls.Offers chain method) : ∃ more, chain = cls :: more := by
  cases offers with
  | own => exact ⟨[], rfl⟩
  | nested => exact ⟨_, rfl⟩

theorem calledAddress?_below (offers : cls.Offers chain method) (style : Style) (depth : Nat)
    (around : String) :
    calledAddress? style method (depth + 1) around chain =
      some (addressOf depth around (chain.map RouteClass.segment ++ [method.key])) := by
  induction offers generalizing depth around with
  | own =>
      simp only [calledAddress?, address?_below, Method.address?_eq, Option.bind_eq_bind,
        Option.bind_some]
      rfl
  | nested _ offers ih =>
      obtain ⟨more, rfl⟩ := offers.exists_cons
      simp only [calledAddress?, address?_below, Option.bind_eq_bind, Option.bind_some, ih]
      rfl

/-- From the root, the segments of the classes and of the method are added one after the other. -/
theorem calledAddress?_root (offers : cls.Offers chain method) (style : Style) (base : String) :
    calledAddress? style method 0 base chain =
      some (base ++ "/" ++ join (pathSegments chain method)) := by
  rw [← addressOf_root base (by simp [pathSegments])]
  cases offers with
  | own =>
      simp only [calledAddress?, address?_root, Method.address?_eq, Option.bind_eq_bind,
        Option.bind_some]
      rfl
  | nested _ offers =>
      have below := offers.calledAddress?_below style 0 base
      obtain ⟨more, rfl⟩ := offers.exists_cons
      simp only [calledAddress?, address?_root, Option.bind_eq_bind, Option.bind_some, below]
      rfl

end RouteClass.Offers

namespace RouteClass

theorem childLines_eq_flatMap (style : Style) (depth : Nat) (children : List RouteClass) :
    childLines style depth children = children.flatMap fun child => "" :: child.lines style depth := by
  induction children with
  | nil => rw [childLines, List.flatMap_nil]
  | cons child more ih => rw [childLines, ih, List.flatMap_cons]

theorem infix_flatMap {α : Type} {f : α → Lines} {items : List α} {item : α}
    (listed : item ∈ items) : f item <:+: items.flatMap fun item => "" :: f item := by
  rw [List.flatMap_def]
  have inside := List.infix_of_mem_flatten (List.mem_map_of_mem (f := fun item => "" :: f item) listed)
  exact (List.infix_cons List.infix_rfl).trans inside

theorem method_infix (style : Style) (depth : Nat) {cls : RouteClass} {method : Method}
    (listed : method ∈ cls.methods) : method.lines style depth <:+: cls.lines style depth := by
  obtain ⟨name, segment, models, methods, children⟩ := cls
  have inside := infix_flatMap (f := fun method => method.lines style depth) listed
  rw [lines.eq_def]
  refine inside.trans ?_
  exact ((List.infix_append _ _ _).trans (List.suffix_cons _ _).isInfix).trans
    (List.prefix_append _ _).isInfix

theorem child_infix (style : Style) (depth : Nat) {cls child : RouteClass}
    (listed : child ∈ cls.children) :
    child.lines style (depth + 1) <:+: cls.lines style depth := by
  obtain ⟨name, segment, models, methods, children⟩ := cls
  have inside := infix_flatMap (f := fun child => child.lines style (depth + 1)) listed
  rw [lines.eq_def style depth ⟨name, segment, models, methods, children⟩]
  simp only [childLines_eq_flatMap]
  refine inside.trans ?_
  exact ((List.suffix_append _ _).isInfix.trans (List.suffix_cons _ _).isInfix).trans
    (List.prefix_append _ _).isInfix

/-- The classes on the way to a method and the method itself are written inside the first class. -/
theorem Offers.lines_infix {cls : RouteClass} {chain : List RouteClass} {method : Method}
    (offers : cls.Offers chain method) (style : Style) (depth : Nat) :
    (∀ (i : Nat) (inner : RouteClass), chain[i]? = some inner →
      inner.lines style (depth + i) <:+: cls.lines style depth) ∧
    method.lines style (depth + (chain.length - 1)) <:+: cls.lines style depth := by
  induction offers generalizing depth with
  | @own cls _ listed =>
      refine ⟨?_, method_infix style depth listed⟩
      intro i inner found
      cases i with
      | zero =>
          cases found
          exact List.infix_rfl
      | succ => simp at found
  | @nested cls child chain _ listed offers ih =>
      obtain ⟨classes, called⟩ := ih (depth + 1)
      have inside := child_infix style depth listed
      constructor
      · intro i inner found
        cases i with
        | zero =>
            cases found
            exact List.infix_rfl
        | succ i =>
            have deeper := classes i inner found
            rw [Nat.add_assoc, Nat.add_comm 1 i] at deeper
            exact deeper.trans inside
      · obtain ⟨more, rfl⟩ := offers.exists_cons
        have same : depth + ((cls :: child :: more).length - 1) =
            depth + 1 + ((child :: more).length - 1) := by
          simp only [List.length_cons]
          omega
        rw [same]
        exact called.trans inside

end RouteClass

end RouterClient.Code
