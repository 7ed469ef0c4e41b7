import ManagedModel.Proofs.AddAndWrite
import ManagedModel.Proofs.Description
import ManagedModel.Proofs.Structure

/-! # Reading

    The three operations that read come to their answers in different ways. One
    looks up an attribute in the schema and then in the resource, one takes the
    attributes of the resource and runs over the whole schema for defaults, and
    one picks names out of the addresses that stand together below another.

    * Filling in defaults leaves under the name of each declared attribute what
      is stored for it or else its default, as names are declared once
      (`get?_withDefaults_of_mem`).
    * The names of the children with a key ascend, since below one address the
      order of addresses is that of their last elements
      (`childrenNames_ascending`), and they are the names of all the children
      that there are (`mem_childrenNames`).
    * A handler that reports what it reads off the tree (`ReadsOff`) is answered
      with that: its operation takes no lock, and no later step sets the result
      anew (`Controller.resultOf?_of_readsOff`).
    * So the three agree with each other and with what is stored, in every
      state (`Controller.reads_agree`). -/

namespace ManagedModel

/-! ### Names of children -/

theorem AddressElement.compare_mk (key v w : String) :
    compare (⟨key, v⟩ : AddressElement) ⟨key, w⟩ = compare v w := by
  have hkey : compare key key = .eq := Std.ReflCmp.compare_self
  show (compare key key).then (compare v w) = compare v w
  rw [hkey]
  rfl

theorem Address.compare_child (a : Address) (e f : AddressElement) :
    compare (a.child e) (a.child f) = compare e f := by
  obtain ⟨elements⟩ := a
  show compare (elements ++ [e]) (elements ++ [f]) = compare e f
  induction elements with
  | nil => cases h : compare e f <;> simp [List.compare_cons_cons, h]
  | cons x xs ih =>
    have hself : compare x x = .eq := Std.ReflCmp.compare_self
    rw [List.cons_append, List.cons_append, List.compare_cons_cons, hself]
    exact ih

namespace Resource

section

variable {t : Tree} {a b : Address} {key v : String}

/-- What is picked out of the address of a child tells the child. -/
theorem pick_eq_some_iff (hb : b ∈ t.children a) :
    (b.last?.bind fun e => if e.key = key then some e.value else none) = some v ↔
      b = a.child ⟨key, v⟩ := by
  obtain ⟨e, rfl, -⟩ := Tree.eq_child_of_mem_children hb
  rw [Tree.last?_child, Option.bind_some]
  constructor
  · intro h
    split at h
    · rename_i hkey
      cases h
      rw [← hkey]
    · cases h
  · intro h
    have hlast := congrArg Address.last? h
    rw [Tree.last?_child, Tree.last?_child] at hlast
    cases hlast
    exact if_pos rfl

/-- Every child with the key is listed, and nothing else. -/
theorem mem_childrenNames : v ∈ childrenNames t a key ↔ t.contains (a.child ⟨key, v⟩) = true := by
  unfold childrenNames
  rw [List.mem_filterMap]
  constructor
  · rintro ⟨b, hb, hpick⟩
    have heq := (pick_eq_some_iff hb).1 hpick
    rw [← heq]
    exact (Tree.mem_children_iff.1 hb).1
  · intro hthere
    have hmem : a.child ⟨key, v⟩ ∈ t.children a := Tree.child_mem_children hthere
    exact ⟨_, hmem, (pick_eq_some_iff hmem).2 rfl⟩

theorem childrenNames_ascending (t : Tree) (a : Address) (key : String) :
    (childrenNames t a key).Pairwise fun v w => compare v w = .lt := by
  unfold childrenNames
  rw [List.pairwise_filterMap]
  have hchildren := t.children_ascending a
  apply hchildren.imp_of_mem
  intro b c hb hc hlt v hv w hw
  rw [(pick_eq_some_iff hb).1 hv, (pick_eq_some_iff hc).1 hw, Address.compare_child,
    AddressElement.compare_mk] at hlt
  exact hlt

end

/-! ### Defaults -/

section

variable {d : AttributeSchema} {defs : List AttributeSchema} {name : String} {m : Attributes}

/-- No default is filled in for a name that is not declared. -/
theorem get?_withDefaults_of_forall_ne (h : ∀ d ∈ defs, name ≠ d.name) :
    (withDefaults defs m).get? name = m.get? name := by
  induction defs generalizing m with
  | nil => rfl
  | cons d defs ih =>
    obtain ⟨hfirst, hrest⟩ := List.forall_mem_cons.1 h
    show (withDefaults defs (withDefaults [d] m)).get? name = m.get? name
    rw [ih hrest, get?_withDefaults_singleton_of_ne hfirst]

/-- A declared attribute has its stored value or else its default. -/
theorem get?_withDefaults_of_mem (hnames : (defs.map (·.name)).Nodup) (hd : d ∈ defs) :
    (withDefaults defs m).get? d.name = (m.get? d.name <|> d.default?) := by
  induction defs generalizing m with
  | nil => cases hd
  | cons first defs ih =>
    have hrest : (defs.map (·.name)).Nodup := (List.nodup_cons.1 hnames).2
    have hfirst : ∀ d ∈ defs, first.name ≠ d.name := by
      intro d hd heq
      have hmem : d.name ∈ defs.map (·.name) := List.mem_map_of_mem hd
      rw [← heq] at hmem
      exact (List.nodup_cons.1 hnames).1 hmem
    show (withDefaults defs (withDefaults [first] m)).get? d.name = _
    cases List.mem_cons.1 hd with
    | inl heq =>
      rw [heq, get?_withDefaults_of_forall_ne hfirst, get?_withDefaults_singleton_self]
    | inr hmem =>
      rw [ih hrest hmem, get?_withDefaults_singleton_of_ne (Ne.symm (hfirst d hmem))]

end

/-! ### Requests -/

/-- The request to read an attribute. -/
def readAttributeRequest (a : Address) (name : String) : Operation :=
  { name := "read-attribute", address := a
    params := given nameParameter (some (.string name)) ∅ }

/-- The request to read a resource; either flag may be left out. -/
def readResourceRequest (a : Address) (recursive? includeDefaults? : Option Value) : Operation :=
  { name := "read-resource", address := a
    params := given includeDefaultsParameter includeDefaults? (given recursiveParameter recursive? ∅) }

/-- The request to list the names of the children with a key. -/
def readChildrenNamesRequest (a : Address) (key : String) : Operation :=
  { name := "read-children-names", address := a
    params := given childTypeParameter (some (.string key)) ∅ }

section

variable {a : Address} {recursive? includeDefaults? : Option Value}

/-- One required parameter, given a text, makes a request that is in order. -/
theorem checkRequest_given (parameter text : String) :
    AttributeSchema.checkRequest [(AttributeSchema.new parameter .string).required]
      (given parameter (some (.string text)) ∅) = .ok () := by
  have hdeclared : AttributeSchema.checkUnknown [(AttributeSchema.new parameter .string).required]
      (given parameter (some (.string text)) ∅) = .ok () :=
    AttributeSchema.checkUnknown_given rfl ⟨_, List.mem_singleton_self _, rfl⟩ _
  have hthere : (AttributeSchema.new parameter .string).required.isMissing
      (given parameter (some (.string text)) ∅) = false :=
    AttributeSchema.isMissing_of_get? (get?_given_self _ _ _) rfl
  exact AttributeSchema.checkRequest_eq_ok.2 ⟨hdeclared, List.forall_mem_singleton.2 hthere⟩

theorem checkRequest_readResourceRequest :
    AttributeSchema.checkRequest readResourceSchema.parameters
      (readResourceRequest a recursive? includeDefaults?).params = .ok () := by
  have hrecursive : AttributeSchema.checkUnknown readResourceSchema.parameters
      (given recursiveParameter recursive? ∅) = .ok () :=
    AttributeSchema.checkUnknown_given rfl ⟨_, List.mem_cons_self, rfl⟩ _
  have hdeclared : AttributeSchema.checkUnknown readResourceSchema.parameters
      (readResourceRequest a recursive? includeDefaults?).params = .ok () :=
    AttributeSchema.checkUnknown_given hrecursive
      ⟨_, List.mem_cons_of_mem _ (List.mem_singleton_self _), rfl⟩ _
  -- neither flag is required
  exact AttributeSchema.checkRequest_eq_ok.2
    ⟨hdeclared, List.forall_mem_cons.2 ⟨rfl, List.forall_mem_singleton.2 rfl⟩⟩

theorem flag_recursive_readResourceRequest (dflt : Bool) :
    flag (readResourceRequest a recursive? includeDefaults?) recursiveParameter dflt =
      (recursive?.bind Value.asBool).getD dflt := by
  unfold flag
  have hget : (readResourceRequest a recursive? includeDefaults?).param? recursiveParameter =
      recursive? := by
    show (given includeDefaultsParameter includeDefaults? _).get? recursiveParameter = recursive?
    rw [get?_given_of_ne (by decide), get?_given_self]
  rw [hget]

theorem flag_includeDefaults_readResourceRequest (dflt : Bool) :
    flag (readResourceRequest a recursive? includeDefaults?) includeDefaultsParameter dflt =
      (includeDefaults?.bind Value.asBool).getD dflt := by
  unfold flag
  have hget : (readResourceRequest a recursive? includeDefaults?).param? includeDefaultsParameter =
      includeDefaults? :=
    get?_given_self _ _ _
  rw [hget]

end

/-! ### What is read off a tree -/

/-- A flag that is not given the other value counts as its default. -/
theorem getD_of_ne {given? : Option Bool} {dflt : Bool} (h : given? ≠ some !dflt) :
    given?.getD dflt = dflt := by
  cases given? with
  | none => rfl
  | some b =>
    have hsame : b = dflt := by simpa using h
    exact hsame

section

variable {schema? : Address → Option ResourceSchema} {t : Tree} {a : Address}
  {schema : ResourceSchema} {stored : Attributes}

theorem readAttributeIn_request {d : AttributeSchema} (hschema : schema? a = some schema)
    (hd : schema.attribute? d.name = some d) (hstored : t.get? a = some stored) :
    readAttributeIn schema? (readAttributeRequest a d.name) t =
      .ok ((stored.get? d.name <|> d.default?).getD .undefined) := by
  have hname : namedAttribute (readAttributeRequest a d.name) = .ok d.name := by
    have hparam : (readAttributeRequest a d.name).param? nameParameter = some (.string d.name) :=
      get?_given_self _ _ _
    unfold namedAttribute
    rw [hparam]
    rfl
  have hdeclared : attributeSchemaAt schema? a d.name = .ok d :=
    attributeSchemaAt_eq_ok.2 ⟨schema, hschema, hd⟩
  unfold readAttributeIn
  rw [hname]
  show (attributeSchemaAt schema? a d.name >>= fun d' => t.require a >>= fun attributes =>
    Except.ok ((attributes.get? d.name <|> d'.default?).getD .undefined)) = _
  rw [hdeclared, Tree.require_eq_ok.2 hstored]
  rfl

theorem readAllIn_request {recursive? includeDefaults? : Option Value}
    (hstored : t.get? a = some stored) (halone : recursive?.bind Value.asBool ≠ some true) :
    readAllIn schema? (readResourceRequest a recursive? includeDefaults?) t =
      .ok (.ofAttributes
        (describeOwnIn schema? t ((includeDefaults?.bind Value.asBool).getD true) a)) := by
  have hflag : (recursive?.bind Value.asBool).getD false = false := getD_of_ne halone
  unfold readAllIn
  rw [flag_recursive_readResourceRequest, flag_includeDefaults_readResourceRequest, hflag]
  show (do let _ ← t.require a; return _) = _
  rw [Tree.require_eq_ok.2 hstored]
  rfl

theorem readChildrenNamesIn_request (hstored : t.get? a = some stored) (key : String) :
    readChildrenNamesIn (readChildrenNamesRequest a key) t =
      .ok (.list ((childrenNames t a key).map Value.string)) := by
  have hparam : (readChildrenNamesRequest a key).param? childTypeParameter = some (.string key) :=
    get?_given_self _ _ _
  unfold readChildrenNamesIn
  rw [hparam]
  show (do let _ ← t.require a; return _) = _
  rw [Tree.require_eq_ok.2 hstored]
  rfl

end

end Resource

/-! ### Answers -/

/-- Where there is something to read off the working copy, the program makes it its result and does
    nothing else. -/
def ReadsOff {S : Signature} (c : Controller S) (p : Program S Unit)
    (read : Tree → Except Fault Value) : Prop :=
  ∀ (f : InFlight S) (v : Value), read f.transaction.working.tree = .ok v →
    p.run c f = (.ok (), f.onTransaction (·.setResult v))

namespace Controller

open Resource

variable {S : Signature} {c : Controller S}

theorem readsOff_of_run {p : Program S Value} {read : Tree → Except Fault Value}
    (h : ∀ f, p.run c f = (read f.transaction.working.tree, f)) :
    ReadsOff c (p.bind Program.result) read := by
  intro f v hread
  have hrun := h f
  rw [hread] at hrun
  rw [Program.run_bind_of_ok hrun]
  rfl

/-- The value that an operation is answered with, if it commits alone. -/
def resultOf? (c : Controller S) (op : Operation) (s : ControllerState S) : Option Value :=
  match c.perform (.execute op) s with
  | .ok (.ok response, _) => some response.result
  | _ => none

/-- An operation whose handler reports what it reads is answered with that. -/
theorem resultOf?_of_readsOff {op : Operation} {entry : RegisteredOperation S.Handler}
    {s : ControllerState S} {read : Tree → Except Fault Value} {v : Value}
    (haccept : c.accept s.booting op = .ok entry) (hreadOnly : entry.schema.isReadOnly = true)
    (hreads : ReadsOff c (c.handle entry.handler op) read) (hlimit : 0 < c.stepLimit)
    (hread : read s.store.tree = .ok v) : c.resultOf? op s = some v := by
  have hscope : writeScope [(op, entry)] = [] := by
    unfold writeScope
    rw [List.filter_cons_of_neg (by simp [hreadOnly])]
    rfl
  have hlock : lock? (writeScope [(op, entry)]) (withNextId s) = some (none, withNextId s) := by
    rw [hscope]
    rfl
  -- the one result that there is place for is set by the one step
  let f := handling op entry s.booting s.nextId (withNextId s)
  have hrun : (c.handle entry.handler op).run c f =
      (.ok (), f.onTransaction fun t => { t with
        working := f.transaction.working
        results := [v]
        journal := .resultSet 0 0 v :: f.transaction.journal }) := by
    rw [hreads f v hread]
    rfl
  obtain ⟨ended, hconclude, -⟩ := conclude_of_handled hlimit hrun
  unfold resultOf?
  rw [perform_of_conclude haccept hlock hconclude]
  rfl

/-- At an address the operations that read are the ones that every model has. -/
structure OffersReads (c : Controller S) (a : Address) (code : ResourceHandler → S.Handler) :
    Prop where
  readAttribute_eq : c.registry.operation? a "read-attribute" =
    some ⟨readAttributeSchema, code .readAttribute⟩
  readResource_eq : c.registry.operation? a "read-resource" =
    some ⟨readResourceSchema, code .readResource⟩
  readChildrenNames_eq : c.registry.operation? a "read-children-names" =
    some ⟨readChildrenNamesSchema, code .readChildrenNames⟩
  program : ∀ h : ResourceHandler, h.IsRead → ∀ op, c.handle (code h) op = h.program op

section

variable {a : Address} {code : ResourceHandler → S.Handler} {s : ControllerState S}
  {schema : ResourceSchema} {stored : Attributes}

theorem OffersReads.resultOf?_readAttribute (h : c.OffersReads a code) (hlimit : 0 < c.stepLimit)
    {d : AttributeSchema} (hschema : c.registry.resource? a = some schema)
    (hd : schema.attribute? d.name = some d) (hstored : s.store.tree.get? a = some stored) :
    c.resultOf? (readAttributeRequest a d.name) s =
      some ((stored.get? d.name <|> d.default?).getD .undefined) := by
  have hreads : ReadsOff c
      (c.handle (code .readAttribute) (readAttributeRequest a d.name))
      (readAttributeIn c.registry.resource? (readAttributeRequest a d.name)) := by
    rw [h.program .readAttribute trivial]
    exact readsOff_of_run (run_readAttribute _)
  exact resultOf?_of_readsOff
    (accept_eq_ok.2 ⟨h.readAttribute_eq, rfl, checkRequest_given nameParameter d.name⟩) rfl hreads
    hlimit (readAttributeIn_request hschema hd hstored)

theorem OffersReads.resultOf?_readResource (h : c.OffersReads a code) (hlimit : 0 < c.stepLimit)
    (hstored : s.store.tree.get? a = some stored) {recursive? includeDefaults? : Option Value}
    (halone : recursive?.bind Value.asBool ≠ some true) :
    c.resultOf? (readResourceRequest a recursive? includeDefaults?) s =
      some (.ofAttributes (describeOwnIn c.registry.resource? s.store.tree
        ((includeDefaults?.bind Value.asBool).getD true) a)) := by
  have hreads : ReadsOff c
      (c.handle (code .readResource) (readResourceRequest a recursive? includeDefaults?))
      (readAllIn c.registry.resource? (readResourceRequest a recursive? includeDefaults?)) := by
    rw [h.program .readResource trivial]
    exact readsOff_of_run (run_readAll _)
  exact resultOf?_of_readsOff
    (accept_eq_ok.2 ⟨h.readResource_eq, rfl, checkRequest_readResourceRequest⟩) rfl hreads
    hlimit (readAllIn_request hstored halone)

theorem OffersReads.resultOf?_readChildrenNames (h : c.OffersReads a code)
    (hlimit : 0 < c.stepLimit) (hstored : s.store.tree.get? a = some stored) (key : String) :
    c.resultOf? (readChildrenNamesRequest a key) s =
      some (.list ((childrenNames s.store.tree a key).map Value.string)) := by
  have hreads : ReadsOff c
      (c.handle (code .readChildrenNames) (readChildrenNamesRequest a key))
      (readChildrenNamesIn (readChildrenNamesRequest a key)) := by
    rw [h.program .readChildrenNames trivial]
    exact readsOff_of_run (run_readChildrenNames _)
  exact resultOf?_of_readsOff
    (accept_eq_ok.2 ⟨h.readChildrenNames_eq, rfl, checkRequest_given childTypeParameter key⟩) rfl
    hreads hlimit (readChildrenNamesIn_request hstored key)

/-- The operations that read agree, in whatever state they find a resource with a schema, if a step
    may be taken at all. A read of the resource alone gives an object, in which each declared
    attribute has the value that a read of the attribute gives, undefined standing for none; left
    without defaults the object is what is stored. And the names of the children with a key are
    listed in ascending order, each once: those for which there is such a child, and no others. -/
theorem reads_agree (hr : c.registry.Built) (hc : c.OffersReads a code) (hlimit : 0 < c.stepLimit)
    (hschema : c.registry.resource? a = some schema)
    (hstored : s.store.tree.get? a = some stored) :
    (∀ recursive? includeDefaults? : Option Value, recursive?.bind Value.asBool ≠ some true →
      (includeDefaults?.bind Value.asBool ≠ some false →
        ∃ fields : Attributes,
          c.resultOf? (readResourceRequest a recursive? includeDefaults?) s =
            some (.ofAttributes fields) ∧
          ∀ d ∈ schema.attributes,
            c.resultOf? (readAttributeRequest a d.name) s =
              some ((fields.get? d.name).getD .undefined)) ∧
      (includeDefaults?.bind Value.asBool = some false →
        c.resultOf? (readResourceRequest a recursive? includeDefaults?) s =
          some (.ofAttributes stored))) ∧
    ∀ key, ∃ names : List String,
      c.resultOf? (readChildrenNamesRequest a key) s = some (.list (names.map Value.string)) ∧
      names.Pairwise (fun v w => compare v w = .lt) ∧ names.Nodup ∧
      ∀ v, v ∈ names ↔ s.store.tree.contains (a.child ⟨key, v⟩) = true := by
  have hnames := hr.nodup_of_resource? hschema
  have hdescribed : ∀ includeDefaults : Bool,
      describeOwnIn c.registry.resource? s.store.tree includeDefaults a =
        if includeDefaults then withDefaults schema.attributes stored else stored := by
    intro includeDefaults
    unfold describeOwnIn
    rw [hschema, hstored]
    rfl
  constructor
  · intro recursive? includeDefaults? halone
    have hread : c.resultOf? (readResourceRequest a recursive? includeDefaults?) s = _ :=
      hc.resultOf?_readResource hlimit hstored halone
    rw [hdescribed] at hread
    constructor
    · intro hdefaults
      rw [getD_of_ne hdefaults] at hread
      refine ⟨_, hread, fun d hd => ?_⟩
      have hdeclared := ResourceSchema.attribute?_of_mem hnames hd
      show _ = some (((withDefaults schema.attributes stored).get? d.name).getD .undefined)
      rw [hc.resultOf?_readAttribute hlimit hschema hdeclared hstored,
        get?_withDefaults_of_mem hnames hd]
    · intro hbare
      rw [hbare] at hread
      exact hread
  · intro key
    have hascending := childrenNames_ascending s.store.tree a key
    exact ⟨_, hc.resultOf?_readChildrenNames hlimit hstored key, hascending,
      nodup_of_ascending hascending, fun v => mem_childrenNames⟩

end

theorem built_serving : serving.registry.Built := ModelSpec.servers.built_getD

/-- Below a server that has a connector another one is added. The attribute by the name of its
    connectors is not stored for the server; it is read with its default, and the connectors are
    listed by their names. -/
theorem reads_agree_serving :
    let a : Address := ⟨[⟨"server", "web"⟩]⟩
    ∃ tree log s, Tree.ofSeed webServer = .ok tree ∧ Run serving (committing tree) log s ∧
      (∃ fields : Attributes,
        serving.resultOf? (readResourceRequest a none none) s = some (.ofAttributes fields) ∧
        serving.resultOf? (readAttributeRequest a "connector") s =
          some ((fields.get? "connector").getD .undefined)) ∧
      serving.resultOf? (readResourceRequest a none (some (.bool false))) s =
        some (.ofAttributes (.ofList [("options", .object [])])) ∧
      ∃ names : List String,
        serving.resultOf? (readChildrenNamesRequest a "connector") s =
          some (.list (names.map Value.string)) ∧
        names.Pairwise (fun v w => compare v w = .lt) ∧ "ajp" ∈ names ∧ "https" ∉ names := by
  intro a
  let add := addRequest (a.child ⟨"connector", "ajp"⟩) ∅
  have hrun : (Tree.ofSeed webServer).toOption.any (fun tree =>
      serving.answers (.execute add) (committing tree) fun _ s =>
        s.store.tree.get? a == some (.ofList [("options", .object [])]) &&
          (s.store.tree.contains (a.child ⟨"connector", "ajp"⟩) &&
            !s.store.tree.contains (a.child ⟨"connector", "https"⟩))) = true := by
    decide +kernel
  cases htree : Tree.ofSeed webServer with
  | error fault =>
    rw [htree] at hrun
    cases hrun
  | ok tree =>
    rw [htree] at hrun
    obtain ⟨outcome, s, h, htest⟩ := exists_of_answers hrun
    simp only [Bool.and_eq_true, beq_iff_eq, Bool.not_eq_true'] at htest
    obtain ⟨hstored, hajp, hhttps⟩ := htest
    have hc : serving.OffersReads a .resource := ⟨rfl, rfl, rfl, fun _ _ _ => rfl⟩
    obtain ⟨schema, hschema, d, hd, hname⟩ : ∃ schema,
        serving.registry.resource? a = some schema ∧
          ∃ d ∈ schema.attributes, d.name = "connector" :=
      ⟨_, rfl, _, List.mem_cons_self, rfl⟩
    obtain ⟨halone, hchildren⟩ := reads_agree built_serving hc (by decide) hschema hstored
    obtain ⟨fields, hfields, hattributes⟩ := (halone none none (by decide)).1 (by decide)
    obtain ⟨names, hnames, hascending, -, hlisted⟩ := hchildren "connector"
    have hattribute := hattributes d hd
    rw [hname] at hattribute
    have hbare := (halone none (some (.bool false)) (by decide)).2 rfl
    have hmissing : "https" ∉ names := by
      rw [hlisted, hhttps]
      exact Bool.false_ne_true
    exact ⟨tree, _, s, rfl, Run.start.next h, ⟨fields, hfields, hattribute⟩, hbare, names, hnames,
      hascending, (hlisted "ajp").2 hajp, hmissing⟩

end Controller

end ManagedModel
