import IdentityTokens.Json.Reader

/-! Passing over a value nobody asked for. Only its form counts: any depth, any
number, texts of any bytes. -/
namespace IdentityTokens.Json.Skip

open Reader

/-- The further items of a list. -/
def moreItems (item : Bytes → Except Fault Bytes) : Nat → Bytes → Except Fault Bytes
  | 0, s => .error (ahead .endOfList s)
  | fuel + 1, s =>
    match skipBlanks s with
    | [] => .error (ahead .endOfList [])
    | b :: rest =>
      if b = closeList then .ok rest
      else if b = comma then do
        let rest ← item rest
        moreItems item fuel rest
      else .error (ahead .expectedListCommaOrEnd (b :: rest))

def items (item : Bytes → Except Fault Bytes) (s : Bytes) : Except Fault Bytes :=
  match skipBlanks s with
  | [] => .error (ahead .endOfList [])
  | b :: rest =>
    if b = closeList then .ok rest
    else do
      let rest ← item (b :: rest)
      moreItems item s.length rest

/-- A name, a colon and a value. -/
def member (item : Bytes → Except Fault Bytes) (s : Bytes) : Except Fault Bytes :=
  match skipBlanks s with
  | [] => .error (ahead .endOfObject [])
  | b :: rest =>
    if b = Quotation.quote then do
      let rest ← Quotation.skip (rest.length + 1) rest
      let rest ← colonThen rest
      item rest
    else .error (ahead .keyMustBeText (b :: rest))

def moreMembers (item : Bytes → Except Fault Bytes) : Nat → Bytes → Except Fault Bytes
  | 0, s => .error (ahead .endOfObject s)
  | fuel + 1, s =>
    match skipBlanks s with
    | [] => .error (ahead .endOfObject [])
    | b :: rest =>
      if b = closeObject then .ok rest
      else if b = comma then do
        let rest ← member item rest
        moreMembers item fuel rest
      else .error (ahead .expectedObjectCommaOrEnd (b :: rest))

def members (item : Bytes → Except Fault Bytes) (s : Bytes) : Except Fault Bytes :=
  match skipBlanks s with
  | [] => .error (ahead .endOfObject [])
  | b :: rest =>
    if b = closeObject then .ok rest
    else do
      let rest ← member item (b :: rest)
      moreMembers item s.length rest

/-- The fuel bounds the depth; each container takes a byte. -/
def valueWithin : Nat → Bytes → Except Fault Bytes
  | 0, s => .error (ahead .endOfValue s)
  | fuel + 1, s =>
    match skipBlanks s with
    | [] => .error (ahead .endOfValue [])
    | b :: rest =>
      match literal? b with
      | some (cs, _) => letters cs rest
      | none =>
        if b = Quotation.quote then Quotation.skip (rest.length + 1) rest
        else if b = minus then Number.skip rest
        else if isDigit b then Number.skip (b :: rest)
        else if b = openList then items (valueWithin fuel) rest
        else if b = openObject then members (valueWithin fuel) rest
        else .error (ahead .expectedValue (b :: rest))

def value (s : Bytes) : Except Fault Bytes := valueWithin (s.length + 1) s

end IdentityTokens.Json.Skip
