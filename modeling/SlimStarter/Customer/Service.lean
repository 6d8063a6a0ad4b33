import SlimStarter.Customer.Cache

/-!
# `CustomerService`

The customer operations as programs, each with a `CacheRedis` of its own, and the part of
`UploadHelper` they use. Where a method writes to the table, its statements after the write are the
removal of a file and the `bump` of the cache, and then those of `get`.
-/

namespace SlimStarter

open Prog (time)

/-- An uploaded file. `mimeType` is what `mime_content_type` says of its temporary file, `none`
where there is no local one. -/
structure UploadedFile where
  error : ℕ
  size : Option Int
  clientFilename : Bytes
  mimeType : Option Bytes
  contents : Bytes
deriving DecidableEq, Repr

/-- The characters of an ASCII text. -/
def text (s : Bytes) : String := String.ofList (s.map fun b => Char.ofNat b.toNat)

/-! ## `UploadHelper` -/

namespace UploadHelper

variable (E : CustomerEnv) (R : CustomerEntropy)

/-- `trim($s, '/')`. -/
def trimSlashes (s : Bytes) : Bytes := (s.dropWhile (· = 47)).rdropWhile (· = 47)

/-- The path of a stored file below the upload root. -/
def relativePath (file : UploadedFile) (path : Bytes) : Bytes :=
  let extension := strtolower (pathinfoExtension file.clientFilename)
  let filename := R.fileName ++ if extension = [] then [] else 46 :: extension
  let folder := trimSlashes path
  (if folder = [] then [] else folder ++ [47]) ++ filename

def isS3 : Bool := E.defaultUploadTarget = ascii "s3"

def store (file : UploadedFile) (path : Bytes) : CustomerProg (Option Bytes) :=
  let relative := relativePath R file path
  if isS3 E then do
    let stored ← issue (.putObject relative file.contents)
    pure (if stored then some relative else none)
  else do
    issue (.moveTo (E.uploadDirectory ++ 47 :: relative) file.contents)
    pure (some relative)

def moveUploadedFile (file : UploadedFile) (path : Bytes) : CustomerProg (Option Bytes) := do
  let relative ← store E R file path
  pure (relative.map fun relative =>
    if isS3 E then relative else ascii "uploads/" ++ relative)

def absolutePath (publicPath : Bytes) : Option Bytes :=
  if (ascii "uploads/").isPrefixOf publicPath then
    let relative := publicPath.drop (ascii "uploads/").length
    if relative = [] ∨ [46, 46] <:+: relative then none
    else some (E.uploadDirectory ++ 47 :: relative)
  else none

def deleteUploadedFile (publicPath : Bytes) : CustomerProg Bool :=
  if isS3 E then pure false
  else
    match absolutePath E publicPath with
    | none => pure false
    | some absolute => do
      let isFile ← issue (.isFile absolute)
      if isFile then issue (.unlink absolute) else pure false

end UploadHelper

/-- `Pagination::totalPages`. -/
def totalPages (totalData perPage : Int) : Int :=
  if totalData ≤ 0 ∨ perPage ≤ 0 then 0 else (totalData - 1) / perPage + 1

/-! ## `CustomerService` -/

namespace CustomerService

open CacheRedis (fresh namespaced rememberJson)

variable (E : CustomerEnv) (R : CustomerEntropy)

/-- `CACHE_NAMESPACE`. -/
def cacheNamespace : Bytes := ascii "customer"

def cacheTtl : Int := 300

def avatarMimeTypes : List Bytes := [ascii "image/jpeg", ascii "image/png", ascii "image/webp"]

def avatarPath (row : CustomerRow) : Option Bytes := row.avatarPath.filter (· ≠ [])

def publicUrl (relativePath : Bytes) : Bytes :=
  let baseUrl := E.appBaseUrl.rdropWhile (· = 47)
  (if baseUrl = [] then [] else baseUrl ++ [47]) ++ relativePath.dropWhile (· = 47)

def toPublicArray (row : CustomerRow) : PublicCustomer where
  toCustomerData := row.toCustomerData
  id := row.id
  avatarUrl := (avatarPath row).map (publicUrl E)
  createdAt := some row.createdAt
  updatedAt := row.updatedAt

/-- What `list` computes where the cache has no answer. -/
def loadList (keywords : Bytes) (status : Option Bytes) (page limit : Int) :
    CustomerProg Cached := do
  let totalData ← issue (.countGet keywords status)
  if CustomerModel.offsetOverflows page limit then .throw .typeError
  else do
    let rows ← issue (.get keywords status page limit)
    pure (.list {
      data := rows.map (toPublicArray E), totalData, totalPage := totalPages totalData limit })

/-- The text that `list` hashes into its cache key. -/
def listKey (keywords : Bytes) (status : Option Bytes) (page limit : Int) : Bytes :=
  implode [124] [strtolower (trim keywords), status.getD [], intString page, intString limit]

def list (keywords : Bytes) (status : Option Bytes) (page limit : Int) : CustomerProg Cached := do
  let (cacheKey, cache) ← namespaced E fresh cacheNamespace (ascii "list")
    (E.sha1 (listKey keywords status page limit))
  let (result, _) ← rememberJson E R cache cacheKey cacheTtl (loadList E keywords status page limit)
  pure result

/-- `CustomerModel::statusCounts` without its total. -/
def statusCounts : List Bytes → CustomerProg (List (Bytes × ℕ))
  | [] => pure []
  | status :: rest => do
    let count ← issue (.countGet [] (some status))
    let counts ← statusCounts rest
    pure ((status, count) :: counts)

/-- What `stats` computes where the cache has no answer. -/
def loadStats : CustomerProg Cached := do
  let byStatus ← statusCounts CustomerStatus.all
  let total ← issue (.countGet [] none)
  let now ← time
  let createdLast7Days ← issue (.countCreatedSince (E.zone.date (now - 7 * 86400)))
  pure (.stats { total, byStatus, createdLast7Days })

def stats : CustomerProg Cached := do
  let (cacheKey, cache) ← namespaced E fresh cacheNamespace (ascii "stats") []
  let (result, _) ← rememberJson E R cache cacheKey cacheTtl (loadStats E)
  pure result

def get (id : ℕ) : CustomerProg PublicCustomer := do
  let customer ← issue (.findById id)
  match customer with
  | none => .throw (.notFoundException "Customer not found.")
  | some customer => pure (toPublicArray E customer)

/-- `bump` on the namespace of the customers. -/
def bump : CustomerProg Unit := do
  let _ ← CacheRedis.bump E fresh cacheNamespace
  pure ()

/-- The errors of `assertUnique` from the two checks. -/
def uniqueErrors (nameTaken emailTaken : Bool) : List (String × String) :=
  (if nameTaken then [("name", "Customer name already exists.")] else [])
    ++ if emailTaken then [("email", "Customer email already exists.")] else []

def assertUnique (name : Bytes) (email : Option Bytes) (exceptId : Option ℕ) :
    CustomerProg Unit := do
  let nameTaken ← issue (.existsByName name exceptId)
  let emailTaken ← match email with
    | none => pure false
    | some email => issue (.existsByEmail email exceptId)
  if uniqueErrors nameTaken emailTaken = [] then pure ()
  else .throw (.validation "Validation failed." (uniqueErrors nameTaken emailTaken))

def create (dto : CustomerData) : CustomerProg PublicCustomer := do
  assertUnique dto.name dto.email none
  let id ← issue (.create dto)
  bump E
  get E id

def update (id : ℕ) (payload : CustomerData) : CustomerProg PublicCustomer := do
  let found ← issue (.exists id)
  if found then do
    assertUnique payload.name payload.email (some id)
    let _ ← issue (.update id (.data payload))
    bump E
    get E id
  else .throw (.notFoundException "Customer not found.")

/-- `deleteUploadedFile` where there is an avatar to delete. -/
def dropAvatar (path : Option Bytes) : CustomerProg Unit :=
  match path with
  | none => pure ()
  | some path => do
    let _ ← UploadHelper.deleteUploadedFile E path
    pure ()

def delete (id : ℕ) : CustomerProg Unit := do
  let customer ← issue (.findById id)
  match customer with
  | none => .throw (.notFoundException "Customer not found.")
  | some customer => do
    let _ ← issue (.deleteById id)
    dropAvatar E (avatarPath customer)
    bump E

def uploadErrorMessage (error : ℕ) : String :=
  match error with
  | 1 | 2 => "The uploaded file exceeds the size limit."
  | 3 => "The upload was interrupted; please try again."
  | 4 => "No file was uploaded."
  | _ => "The upload failed; please try again."

def allowedAvatarExtensions : List Bytes :=
  let extensions := ((explode 44 E.uploadAvatarExtensions).map fun s => strtolower (trim s)).filter
    -- `array_filter` drops what PHP takes for false.
    fun s => s ≠ [] && s ≠ ascii "0"
  if extensions = [] then [ascii "jpg", ascii "jpeg", ascii "png", ascii "webp"] else extensions

/-- What `assertAvatar` throws. -/
def avatarError (file : UploadedFile) : Option Failure :=
  let extension := strtolower (pathinfoExtension file.clientFilename)
  let allowed := allowedAvatarExtensions E
  let megabytes := -(-E.uploadAvatarMaxBytes / 1048576)
  if file.error ≠ 0 then
    some (.validation "Avatar upload failed." [("avatar", uploadErrorMessage file.error)])
  else if file.size.any (E.uploadAvatarMaxBytes < ·) then
    some (.validation "Avatar is too large."
      [("avatar", s!"Avatar must not exceed {megabytes} MB.")])
  else if extension = [] ∨ extension ∉ allowed then
    some (.validation "Avatar type is not allowed." [("avatar",
      "Allowed avatar extensions: " ++ text (implode (ascii ", ") allowed) ++ ".")])
  else if file.mimeType.any fun mimeType => mimeType ≠ [] && mimeType ∉ avatarMimeTypes then
    some (.validation "Avatar type is not allowed."
      [("avatar", "The uploaded file is not a JPEG, PNG or WebP image.")])
  else none

def uploadAvatar (id : ℕ) (file : UploadedFile) : CustomerProg PublicCustomer := do
  let customer ← issue (.findById id)
  match customer with
  | none => .throw (.notFoundException "Customer not found.")
  | some customer =>
    match avatarError E file with
    | some e => .throw e
    | none => do
      let path ← UploadHelper.moveUploadedFile E R file (ascii "avatars")
      match path with
      | none => .throw (.appException "The avatar could not be stored."
          HttpStatus.internalServerError)
      | some path => do
        let _ ← issue (.update id (.avatarPath (some path)))
        dropAvatar E ((avatarPath customer).filter (· ≠ path))
        bump E
        get E id

def removeAvatar (id : ℕ) : CustomerProg PublicCustomer := do
  let customer ← issue (.findById id)
  match customer with
  | none => .throw (.notFoundException "Customer not found.")
  | some customer => do
    let _ ← issue (.update id (.avatarPath none))
    dropAvatar E (avatarPath customer)
    bump E
    get E id

end CustomerService

end SlimStarter
