import BbsServer.Backend

/-!
# Binding the arguments of a query

The loop of `vdb_query` in `db_sqlite.c` over `arg_types`. Its index is the position of a type and the number of the
parameter in one, and a `db_size` has a position but no parameter (`binding_iff`).
-/

namespace BbsServer

open CStr

inductive DbArgType
  | dbStr
  | dbInt
  | dbInt64
  | dbBlob
  | dbSize
  | dbEnd
  deriving DecidableEq, Repr

structure Pointer where
  addr : Nat
  mem : Option Bytes
  deriving DecidableEq, Repr

/-- An argument behind `arg_types`, in a register of eight bytes. -/
inductive VaArg
  | int (n : Int)
  | int64 (n : Int)
  | size (n : Nat)
  | pointer (p : Pointer)
  deriving DecidableEq, Repr

/-! `va_arg` reads the register as the type that it is told. The upper half of an `int` is not set, and a number is no
pointer. -/

def VaArg.asInt : VaArg → Int
  | .int n => n
  | .int64 n => toInt n
  | .size n => toInt n
  | .pointer p => toInt p.addr

def VaArg.asInt64 : VaArg → Option Int
  | .int _ => none
  | .int64 n => some n
  | .size n => some (wrap 64 n)
  | .pointer p => some (wrap 64 p.addr)

def VaArg.asSize : VaArg → Option Nat
  | .int _ => none
  | .int64 n => some (sizeT n)
  | .size n => some n
  | .pointer p => some p.addr

def VaArg.asPointer : VaArg → Option Pointer
  | .pointer p => some p
  | _ => none

inductive Bound
  | text (p : Pointer) (n : Int)
  | int (n : Int)
  | int64 (n : Int)
  | blob (p : Pointer) (n : Int)
  deriving DecidableEq, Repr

structure Bind where
  param : Nat
  value : Bound
  deriving DecidableEq, Repr

/-- The loop of `vdb_query`: its calls, and whether it gets to `db_end`; a blob without a size is `db_err`.
`none` is an array without `db_end`, or a `va_arg` of an argument that is not there or not of its type. -/
def bindArgs : Nat → List DbArgType → List VaArg → Nat → Option (List Bind × Bool)
  | _, .dbEnd :: _, _, _ => some ([], true)
  | i, .dbStr :: argTypes, a :: args, size => do
    let p ← a.asPointer
    let (binds, ok) ← bindArgs (i + 1) argTypes args 0
    some ({ param := i + 1, value := .text p (if size > 0 then toInt size else -1) } :: binds, ok)
  | i, .dbInt :: argTypes, a :: args, size => do
    let (binds, ok) ← bindArgs (i + 1) argTypes args size
    some ({ param := i + 1, value := .int a.asInt } :: binds, ok)
  | i, .dbInt64 :: argTypes, a :: args, size => do
    let n ← a.asInt64
    let (binds, ok) ← bindArgs (i + 1) argTypes args size
    some ({ param := i + 1, value := .int64 n } :: binds, ok)
  | i, .dbBlob :: argTypes, a :: args, size =>
    if size > 0 then do
      let p ← a.asPointer
      let (binds, ok) ← bindArgs (i + 1) argTypes args 0
      some ({ param := i + 1, value := .blob p (toInt size) } :: binds, ok)
    else some ([], false)
  | i, .dbSize :: argTypes, a :: args, _ => do
    let size ← a.asSize
    bindArgs (i + 1) argTypes args size
  | _, _, _, _ => none

/-! ## What the arguments say -/

/-- An argument and the type that stands for it in `arg_types`; `size` announces the size of a later one. -/
inductive SqlArg
  | str (p : Pointer)
  | int (n : Int)
  | int64 (n : Int)
  | blob (p : Pointer)
  | size (n : Nat)
  deriving DecidableEq, Repr

def SqlArg.type : SqlArg → DbArgType
  | .str _ => .dbStr
  | .int _ => .dbInt
  | .int64 _ => .dbInt64
  | .blob _ => .dbBlob
  | .size _ => .dbSize

def SqlArg.arg : SqlArg → VaArg
  | .str p => .pointer p
  | .int n => .int n
  | .int64 n => .int64 n
  | .blob p => .pointer p
  | .size n => .size n

def SqlArg.isSize : SqlArg → Bool
  | .size _ => true
  | _ => false

def SqlArg.isBlob : SqlArg → Bool
  | .blob _ => true
  | _ => false

def argTypes (args : List SqlArg) : List DbArgType := args.map SqlArg.type ++ [.dbEnd]

/-- The values in order, a text or blob with the size that is announced for it; `size` is announced already. -/
def values : List SqlArg → Option Nat → List (SqlArg × Option Nat)
  | [], _ => []
  | .size n :: args, _ => values args (some n)
  | .str p :: args, size => (.str p, size) :: values args none
  | .blob p :: args, size => (.blob p, size) :: values args none
  | .int n :: args, size => (.int n, none) :: values args size
  | .int64 n :: args, size => (.int64 n, none) :: values args size

/-- The binding of a value: a text without a size ends at its NUL, and a blob has one. -/
def boundTo : SqlArg × Option Nat → Option Bound
  | (.str p, none) => some (.text p (-1))
  | (.str p, some n) => some (.text p n)
  | (.int n, _) => some (.int n)
  | (.int64 n, _) => some (.int64 n)
  | (.blob p, some n) => some (.blob p n)
  | _ => none

/-- The loop binds the `k`-th value, with its size, to parameter `k`. -/
structure BindsInOrder (args : List SqlArg) (binds : List Bind) : Prop where
  run : bindArgs 0 (argTypes args) (args.map SqlArg.arg) 0 = some (binds, true)
  params : binds.map (·.param) = List.range' 1 (values args none).length
  values : binds.map (some ·.value) = (values args none).map boundTo

def positions : Nat → List SqlArg → List Nat
  | _, [] => []
  | i, a :: args => if a.isSize then positions (i + 1) args else (i + 1) :: positions (i + 1) args

section
variable {args : List SqlArg} {binds : List Bind} {a b : SqlArg} {i size : Nat} {announced : Option Nat}
  {p : Pointer} {n : Int}

/-! ## The parameters -/

theorem bindArgs_params : ∀ (args : List SqlArg) (i size : Nat) {binds : List Bind},
    bindArgs i (argTypes args) (args.map SqlArg.arg) size = some (binds, true) →
    binds.map (·.param) = positions i args
  | [], _, _, _, h => by cases h; rfl
  | .str p :: args, i, size, _, h => by
    obtain ⟨⟨binds, ok⟩, hrun, h⟩ := Option.bind_eq_some_iff.mp h
    cases h
    exact congrArg (_ :: ·) (bindArgs_params args _ _ hrun)
  | .int n :: args, i, size, _, h => by
    obtain ⟨⟨binds, ok⟩, hrun, h⟩ := Option.bind_eq_some_iff.mp h
    cases h
    exact congrArg (_ :: ·) (bindArgs_params args _ _ hrun)
  | .int64 n :: args, i, size, _, h => by
    obtain ⟨⟨binds, ok⟩, hrun, h⟩ := Option.bind_eq_some_iff.mp h
    cases h
    exact congrArg (_ :: ·) (bindArgs_params args _ _ hrun)
  | .blob p :: args, i, size, _, h => by
    change (if size > 0 then _ else _) = _ at h
    split at h
    · obtain ⟨_, -, h⟩ := Option.bind_eq_some_iff.mp h
      obtain ⟨⟨binds, ok⟩, hrun, h⟩ := Option.bind_eq_some_iff.mp h
      cases h
      exact congrArg (_ :: ·) (bindArgs_params args _ _ hrun)
    · cases h
  | .size n :: args, i, size, _, h => bindArgs_params args (i + 1) n h

theorem positions_gt : ∀ (args : List SqlArg) (i : Nat), ∀ x ∈ positions i args, i < x
  | [], _, _, h => by cases h
  | a :: args, i, x, h => by
    unfold positions at h
    split at h
    · exact Nat.lt_of_succ_lt (positions_gt args (i + 1) x h)
    · rcases List.mem_cons.mp h with rfl | h
      · exact Nat.lt_succ_self i
      · exact Nat.lt_of_succ_lt (positions_gt args (i + 1) x h)

theorem length_positions : ∀ (args : List SqlArg) (i : Nat) (announced : Option Nat),
    (positions i args).length = (values args announced).length
  | [], _, _ => rfl
  | .str _ :: args, i, _ => congrArg (· + 1) (length_positions args (i + 1) _)
  | .int _ :: args, i, _ => congrArg (· + 1) (length_positions args (i + 1) _)
  | .int64 _ :: args, i, _ => congrArg (· + 1) (length_positions args (i + 1) _)
  | .blob _ :: args, i, _ => congrArg (· + 1) (length_positions args (i + 1) _)
  | .size _ :: args, i, _ => length_positions args (i + 1) _

theorem positions_eq_nil : ∀ {args : List SqlArg} {i : Nat}, positions i args = [] ↔ ∀ a ∈ args, a.isSize
  | [], _ => by simp [positions]
  | a :: args, i => by
    unfold positions
    rw [List.forall_mem_cons]
    cases ha : a.isSize with
    | false => simp
    | true => simp [positions_eq_nil]

/-- The parameters are consecutive exactly if only sizes follow a size. -/
theorem positions_consecutive : ∀ {args : List SqlArg} {i : Nat},
    positions i args = List.range' (i + 1) (positions i args).length ↔ args.Pairwise fun a b => a.isSize → b.isSize
  | [], _ => by simp [positions]
  | a :: args, i => by
    rw [List.pairwise_cons]
    unfold positions
    cases ha : a.isSize with
    | false =>
      simp only [Bool.false_eq_true, if_false, List.length_cons, List.range'_succ, List.cons.injEq, true_and,
        positions_consecutive, false_implies, implies_true]
    | true =>
      simp only [if_true, true_implies]
      constructor
      · intro h
        have hnil : positions (i + 1) args = [] := by
          cases hp : positions (i + 1) args with
          | nil => rfl
          | cons x l =>
            -- the first parameter is too large
            have hx := positions_gt args (i + 1) x (by rw [hp]; exact List.mem_cons_self ..)
            rw [hp, List.length_cons, List.range'_succ] at h
            have := (List.cons.inj h).1
            omega
        have hsizes := positions_eq_nil.mp hnil
        exact ⟨hsizes, List.pairwise_of_forall_mem_list fun _ _ b hb _ => hsizes b hb⟩
      · rintro ⟨hsizes, -⟩
        rw [positions_eq_nil.mpr hsizes]
        rfl

/-! ## The values -/

theorem values_sizes : ∀ (args : List SqlArg) {announced : Option Nat}, (∀ a ∈ args, a.isSize) →
    values args announced = []
  | [], _, _ => rfl
  | .size n :: args, _, h => values_sizes args fun a ha => h a (List.mem_cons_of_mem _ ha)
  | .str p :: _, _, h => by cases h (.str p) (List.mem_cons_self ..)
  | .int n :: _, _, h => by cases h (.int n) (List.mem_cons_self ..)
  | .int64 n :: _, _, h => by cases h (.int64 n) (List.mem_cons_self ..)
  | .blob p :: _, _, h => by cases h (.blob p) (List.mem_cons_self ..)

theorem bindArgs_sizes : ∀ (args : List SqlArg) {i size : Nat}, (∀ a ∈ args, a.isSize) →
    bindArgs i (argTypes args) (args.map SqlArg.arg) size = some ([], true)
  | [], _, _, _ => rfl
  | .size n :: args, i, _, h => bindArgs_sizes args (i := i + 1) fun a ha => h a (List.mem_cons_of_mem _ ha)
  | .str p :: _, _, _, h => by cases h (.str p) (List.mem_cons_self ..)
  | .int n :: _, _, _, h => by cases h (.int n) (List.mem_cons_self ..)
  | .int64 n :: _, _, _, h => by cases h (.int64 n) (List.mem_cons_self ..)
  | .blob p :: _, _, _, h => by cases h (.blob p) (List.mem_cons_self ..)

theorem values_blob : ∀ {args : List SqlArg}, args.Pairwise (fun a b => a.isSize → b.isSize) → .blob p ∈ args →
    (SqlArg.blob p, none) ∈ values args none
  | .size n :: args, h, hb => by
    rcases List.mem_cons.mp hb with hb | hb
    · cases hb
    · cases (List.pairwise_cons.mp h).1 _ hb rfl
  | .blob q :: args, h, hb => by
    rcases List.mem_cons.mp hb with hb | hb
    · cases hb
      exact List.mem_cons_self ..
    · exact List.mem_cons_of_mem _ (values_blob (List.pairwise_cons.mp h).2 hb)
  | .str q :: args, h, hb => List.mem_cons_of_mem _ (values_blob (List.pairwise_cons.mp h).2 (by simpa using hb))
  | .int n :: args, h, hb => List.mem_cons_of_mem _ (values_blob (List.pairwise_cons.mp h).2 (by simpa using hb))
  | .int64 n :: args, h, hb => List.mem_cons_of_mem _ (values_blob (List.pairwise_cons.mp h).2 (by simpa using hb))

theorem bindArgs_values : ∀ {args : List SqlArg} {i : Nat}, args.Pairwise (fun a b => a.isSize → b.isSize) →
    (∀ a ∈ args, a.isBlob = false) → ∃ binds, bindArgs i (argTypes args) (args.map SqlArg.arg) 0 =
    some (binds, true) ∧
      binds.map (some ·.value) = (values args none).map boundTo
  | [], _, _, _ => ⟨[], rfl, rfl⟩
  | a :: args, i, hp, hb => by
    obtain ⟨hsize, hp⟩ := List.pairwise_cons.mp hp
    obtain ⟨ha, hb⟩ := List.forall_mem_cons.mp hb
    obtain ⟨binds, hrun, hvalues⟩ := bindArgs_values (i := i + 1) hp hb
    cases a with
    | str p =>
      refine ⟨⟨i + 1, .text p (-1)⟩ :: binds, ?_, congrArg (_ :: ·) hvalues⟩
      exact congrArg (·.bind fun r => some (Bind.mk (i + 1) (.text p (-1)) :: r.1, r.2)) hrun
    | int n =>
      refine ⟨⟨i + 1, .int n⟩ :: binds, ?_, congrArg (_ :: ·) hvalues⟩
      exact congrArg (·.bind fun r => some (Bind.mk (i + 1) (.int n) :: r.1, r.2)) hrun
    | int64 n =>
      refine ⟨⟨i + 1, .int64 n⟩ :: binds, ?_, congrArg (_ :: ·) hvalues⟩
      exact congrArg (·.bind fun r => some (Bind.mk (i + 1) (.int64 n) :: r.1, r.2)) hrun
    | blob p => cases ha
    | size n =>
      have hsizes : ∀ b ∈ SqlArg.size n :: args, b.isSize :=
        List.forall_mem_cons.mpr ⟨rfl, fun b hb => hsize b hb rfl⟩
      exact ⟨[], bindArgs_sizes _ hsizes, by rw [values_sizes _ hsizes]; rfl⟩

end

/-- **Binding.** The `k`-th value is bound to parameter `k`, with its size, exactly if no `db_size` stands in
front of a value, and there is no blob, which would need one. -/
theorem binding_iff (args : List SqlArg) : (∃ binds, BindsInOrder args binds) ↔
    args.Pairwise (fun a b => a.isSize → b.isSize) ∧ ∀ a ∈ args, a.isBlob = false := by
  constructor
  · rintro ⟨binds, h⟩
    have hp : args.Pairwise fun a b => a.isSize → b.isSize := by
      have := (bindArgs_params args 0 0 h.run).symm.trans h.params
      rwa [← length_positions args 0, positions_consecutive] at this
    refine ⟨hp, fun a ha => ?_⟩
    cases a with
    | blob p =>
      have hmem : (none : Option Bound) ∈ binds.map (some ·.value) := by
        rw [h.values]
        exact List.mem_map.mpr ⟨_, values_blob hp ha, rfl⟩
      simp at hmem
    | str | int | int64 | size => rfl
  · rintro ⟨hp, hb⟩
    obtain ⟨binds, hrun, hvalues⟩ := bindArgs_values (i := 0) hp hb
    refine ⟨binds, hrun, ?_, hvalues⟩
    rw [bindArgs_params args 0 0 hrun, ← length_positions args 0]
    exact positions_consecutive.mpr hp

/-! ### A text with its size -/

/-- `{db_size, db_str, db_end}` with a size of 2 and the text `ab`: the text is bound to parameter 2. -/
theorem sized_text_second (addr : Nat) :
    bindArgs 0 [.dbSize, .dbStr, .dbEnd] [.size 2, .pointer ⟨addr, some (ascii "ab\x00")⟩] 0 =
      some ([⟨2, .text ⟨addr, some (ascii "ab\x00")⟩ 2⟩], true) := rfl

theorem sized_text_misbound :
    ¬ ∃ binds, BindsInOrder [.size 2, .str ⟨4096, some (ascii "ab\x00")⟩] binds := by
  rintro ⟨binds, h⟩
  have hrun := h.run.symm.trans (sized_text_second 4096)
  obtain ⟨rfl, -⟩ := Prod.mk.inj (Option.some.inj hrun)
  exact absurd h.params (by decide)

end BbsServer
