import RuleLens.Module.Basic

/-!
# The known modules

The members of every module that the rule compiler ships.
-/

namespace RuleLens.Schema

def versionParts : List (String × Member) :=
  Member.each .property ["major", "minor"]

def peDataDirectories : List (String × Member) :=
  Member.each .property ["virtual_address", "size"]

def peSections : List (String × Member) :=
  Member.each .property ["name", "full_name", "characteristics", "virtual_address",
    "virtual_size", "raw_data_offset", "raw_data_size", "pointer_to_relocations",
    "pointer_to_line_numbers", "number_of_relocations", "number_of_line_numbers"]

def peOverlay : List (String × Member) :=
  Member.each .property ["offset", "size"]

def peRichSignature : List (String × Member) :=
  Member.each .property ["offset", "length", "key", "raw_data", "clear_data", "version_data"] ++
  Member.each .method ["version", "toolid"]

def peResources : List (String × Member) :=
  Member.each .property ["rva", "offset", "length", "type", "id", "language", "type_string",
    "name_string", "language_string"]

def peVersionInfoList : List (String × Member) :=
  Member.each .property ["key", "value"]

def peSignatures : List (String × Member) :=
  Member.each .property ["thumbprint", "issuer", "subject", "version", "algorithm",
    "algorithm_oid", "serial", "not_before", "not_after", "verified", "digest_alg", "digest",
    "file_digest", "number_of_certificates"] ++
  Member.each .method ["valid_on"]

def peImportsFunctions : List (String × Member) :=
  Member.each .property ["name", "ordinal", "rva"]

def peImports : List (String × Member) :=
  Member.each .property ["library_name", "number_of_functions"] ++
  [("functions", .nested peImportsFunctions)]

def peExportDetails : List (String × Member) :=
  Member.each .property ["offset", "name", "forward_name", "ordinal", "rva"]

/-- Portable executables. -/
def pe : List (String × Member) :=
  Member.each .enum ["MACHINE_UNKNOWN", "MACHINE_AM33", "MACHINE_AMD64", "MACHINE_ARM",
    "MACHINE_ARMNT", "MACHINE_ARM64", "MACHINE_EBC", "MACHINE_I386", "MACHINE_IA64",
    "MACHINE_M32R", "MACHINE_MIPS16", "MACHINE_MIPSFPU", "MACHINE_MIPSFPU16", "MACHINE_POWERPC",
    "MACHINE_POWERPCFP", "MACHINE_R4000", "MACHINE_SH3", "MACHINE_SH3DSP", "MACHINE_SH4",
    "MACHINE_SH5", "MACHINE_THUMB", "MACHINE_WCEMIPSV2", "SUBSYSTEM_UNKNOWN", "SUBSYSTEM_NATIVE",
    "SUBSYSTEM_WINDOWS_GUI", "SUBSYSTEM_WINDOWS_CUI", "SUBSYSTEM_OS2_CUI", "SUBSYSTEM_POSIX_CUI",
    "SUBSYSTEM_NATIVE_WINDOWS", "SUBSYSTEM_WINDOWS_CE_GUI", "SUBSYSTEM_EFI_APPLICATION",
    "SUBSYSTEM_EFI_BOOT_SERVICE_DRIVER", "SUBSYSTEM_EFI_RUNTIME_DRIVER", "SUBSYSTEM_XBOX",
    "SUBSYSTEM_WINDOWS_BOOT_APPLICATION", "DYNAMIC_BASE", "FORCE_INTEGRITY", "NX_COMPAT",
    "NO_ISOLATION", "NO_SEH", "NO_BIND", "WDM_DRIVER", "TERMINAL_SERVER_AWARE", "RELOCS_STRIPPED",
    "EXECUTABLE_IMAGE", "LINE_NUMS_STRIPPED", "LOCAL_SYMS_STRIPPED", "AGGRESIVE_WS_TRIM",
    "LARGE_ADDRESS_AWARE", "BYTES_REVERSED_LO", "MACHINE_32BIT", "DEBUG_STRIPPED",
    "REMOVABLE_RUN_FROM_SWAP", "NET_RUN_FROM_SWAP", "SYSTEM", "DLL", "UP_SYSTEM_ONLY",
    "BYTES_REVERSED_HI", "IMAGE_DIRECTORY_ENTRY_EXPORT", "IMAGE_DIRECTORY_ENTRY_IMPORT",
    "IMAGE_DIRECTORY_ENTRY_RESOURCE", "IMAGE_DIRECTORY_ENTRY_EXCEPTION",
    "IMAGE_DIRECTORY_ENTRY_SECURITY", "IMAGE_DIRECTORY_ENTRY_BASERELOC",
    "IMAGE_DIRECTORY_ENTRY_DEBUG", "IMAGE_DIRECTORY_ENTRY_TLS",
    "IMAGE_DIRECTORY_ENTRY_LOAD_CONFIG", "IMAGE_DIRECTORY_ENTRY_BOUND_IMPORT",
    "IMAGE_DIRECTORY_ENTRY_IAT", "IMAGE_DIRECTORY_ENTRY_DELAY_IMPORT",
    "IMAGE_DIRECTORY_ENTRY_COM_DESCRIPTOR", "SECTION_CNT_CODE", "SECTION_CNT_INITIALIZED_DATA",
    "SECTION_CNT_UNINITIALIZED_DATA", "SECTION_GPREL", "SECTION_MEM_16BIT",
    "SECTION_LNK_NRELOC_OVFL", "SECTION_MEM_DISCARDABLE", "SECTION_MEM_NOT_CACHED",
    "SECTION_MEM_NOT_PAGED", "SECTION_MEM_SHARED", "SECTION_MEM_EXECUTE", "SECTION_MEM_READ",
    "SECTION_MEM_WRITE", "RESOURCE_TYPE_CURSOR", "RESOURCE_TYPE_BITMAP", "RESOURCE_TYPE_ICON",
    "RESOURCE_TYPE_MENU", "RESOURCE_TYPE_DIALOG", "RESOURCE_TYPE_STRING", "RESOURCE_TYPE_FONTDIR",
    "RESOURCE_TYPE_FONT", "RESOURCE_TYPE_ACCELERATOR", "RESOURCE_TYPE_RCDATA",
    "RESOURCE_TYPE_MESSAGETABLE", "RESOURCE_TYPE_GROUP_CURSOR", "RESOURCE_TYPE_GROUP_ICON",
    "RESOURCE_TYPE_VERSION", "RESOURCE_TYPE_DLGINCLUDE", "RESOURCE_TYPE_PLUGPLAY",
    "RESOURCE_TYPE_VXD", "RESOURCE_TYPE_ANICURSOR", "RESOURCE_TYPE_ANIICON", "RESOURCE_TYPE_HTML",
    "RESOURCE_TYPE_MANIFEST"] ++
  Member.each .property ["is_pe", "machine", "checksum"] ++
  Member.each .method ["calculate_checksum"] ++
  Member.each .property ["subsystem", "timestamp", "pointer_to_symbol_table", "number_of_symbols",
    "size_of_optional_header", "opthdr_magic", "size_of_code", "size_of_initialized_data",
    "size_of_uninitialized_data", "entry_point", "entry_point_raw", "base_of_code",
    "base_of_data", "image_base", "section_alignment", "file_alignment", "win32_version_value",
    "size_of_image", "size_of_headers", "characteristics"] ++
  [("linker_version", .nested versionParts), ("os_version", .nested versionParts),
    ("image_version", .nested versionParts), ("subsystem_version", .nested versionParts)] ++
  Member.each .property ["dll_characteristics", "size_of_stack_reserve", "size_of_stack_commit",
    "size_of_heap_reserve", "size_of_heap_commit", "loader_flags", "number_of_rva_and_sizes"] ++
  [("data_directories", .nested peDataDirectories)] ++
  Member.each .property ["number_of_sections"] ++
  [("sections", .nested peSections), ("overlay", .nested peOverlay),
    ("rich_signature", .nested peRichSignature)] ++
  Member.each .property ["pdb_path", "number_of_resources", "resource_timestamp"] ++
  [("resource_version", .nested versionParts), ("resources", .nested peResources)] ++
  Member.each .property ["version_info"] ++
  [("version_info_list", .nested peVersionInfoList)] ++
  Member.each .property ["number_of_signatures", "is_signed"] ++
  [("signatures", .nested peSignatures)] ++
  Member.each .property ["number_of_imports", "number_of_imported_functions",
    "number_of_delayed_imports", "number_of_delayed_imported_functions"] ++
  [("import_details", .nested peImports), ("delayed_import_details", .nested peImports)] ++
  Member.each .property ["number_of_exports", "export_timestamp", "dll_name"] ++
  [("export_details", .nested peExportDetails)] ++
  Member.each .method ["exports", "exports_index", "imports", "import_rva", "delayed_import_rva",
    "imphash", "locale", "language", "is_dll", "is_32bit", "is_64bit", "rva_to_offset",
    "section_index"]

def elfSections : List (String × Member) :=
  Member.each .property ["type", "flags", "address", "name", "size", "offset"]

def elfSegments : List (String × Member) :=
  Member.each .property ["type", "flags", "offset", "virtual_address", "physical_address",
    "file_size", "memory_size", "alignment"]

def elfDynamic : List (String × Member) :=
  Member.each .property ["type", "val"]

def elfSymbols : List (String × Member) :=
  Member.each .property ["name", "value", "size", "type", "bind", "shndx"]

/-- ELF files. -/
def elf : List (String × Member) :=
  Member.each .enum ["ET_NONE", "ET_REL", "ET_EXEC", "ET_DYN", "ET_CORE", "EM_NONE", "EM_M32",
    "EM_SPARC", "EM_386", "EM_68K", "EM_88K", "EM_860", "EM_MIPS", "EM_MIPS_RS3_LE", "EM_PPC",
    "EM_PPC64", "EM_ARM", "EM_X86_64", "EM_AARCH64", "SHT_NULL", "SHT_PROGBITS", "SHT_SYMTAB",
    "SHT_STRTAB", "SHT_RELA", "SHT_HASH", "SHT_DYNAMIC", "SHT_NOTE", "SHT_NOBITS", "SHT_REL",
    "SHT_SHLIB", "SHT_DYNSYM", "SHF_WRITE", "SHF_ALLOC", "SHF_EXECINSTR", "PT_NULL", "PT_LOAD",
    "PT_DYNAMIC", "PT_INTERP", "PT_NOTE", "PT_SHLIB", "PT_PHDR", "PT_TLS", "PT_GNU_EH_FRAME",
    "PT_GNU_STACK", "PF_X", "PF_W", "PF_R"] ++
  Member.each .property ["type", "machine", "entry_point", "number_of_sections", "sh_offset",
    "sh_entry_size"] ++
  [("sections", .nested elfSections)] ++
  Member.each .property ["number_of_segments", "ph_offset", "ph_entry_size"] ++
  [("segments", .nested elfSegments)] ++
  Member.each .property ["dynamic_section_entries"] ++
  [("dynamic", .nested elfDynamic)] ++
  Member.each .property ["symtab_entries"] ++
  [("symtab", .nested elfSymbols)] ++
  Member.each .property ["dynsym_entries"] ++
  [("dynsym", .nested elfSymbols)] ++
  Member.each .method ["telfhash"]

def cuckooNetwork : List (String × Member) :=
  Member.each .method ["dns_lookup", "http_get", "http_post", "http_request", "http_user_agent",
    "host", "tcp", "udp"]

def cuckooRegistry : List (String × Member) :=
  Member.each .method ["key_access"]

def cuckooFilesystem : List (String × Member) :=
  Member.each .method ["file_access"]

def cuckooSync : List (String × Member) :=
  Member.each .method ["mutex"]

def cuckooProcess : List (String × Member) :=
  Member.each .method ["executed_command"]

/-- Sandbox behaviour. -/
def cuckoo : List (String × Member) :=
  [("network", .nested cuckooNetwork), ("registry", .nested cuckooRegistry),
    ("filesystem", .nested cuckooFilesystem), ("sync", .nested cuckooSync),
    ("process", .nested cuckooProcess)]

/-- File types. -/
def magic : List (String × Member) :=
  Member.each .method ["type", "mime_type"]

/-- Checksums. -/
def hash : List (String × Member) :=
  Member.each .method ["md5", "sha1", "sha256", "checksum32", "crc32"]

/-- Statistics of bytes. -/
def math : List (String × Member) :=
  Member.each .method ["entropy", "monte_carlo_pi", "serial_correlation", "mean", "deviation",
    "in_range", "max", "min", "to_number", "abs", "count", "percentage", "mode", "to_string"]

def dotnetStreams : List (String × Member) :=
  Member.each .property ["name", "offset", "size"]

def dotnetResources : List (String × Member) :=
  Member.each .property ["offset", "length", "name"]

def dotnetAssemblyVersion : List (String × Member) :=
  Member.each .property ["major", "minor", "build_number", "revision_number"]

def dotnetAssembly : List (String × Member) :=
  [("version", .nested dotnetAssemblyVersion)] ++
  Member.each .property ["name", "culture"]

def dotnetAssemblyRefs : List (String × Member) :=
  [("version", .nested dotnetAssemblyVersion)] ++
  Member.each .property ["name", "public_key_or_token"]

/-- Assemblies. -/
def dotnet : List (String × Member) :=
  Member.each .property ["version", "module_name", "number_of_streams"] ++
  [("streams", .nested dotnetStreams)] ++
  Member.each .property ["number_of_guids", "guids", "number_of_resources"] ++
  [("resources", .nested dotnetResources), ("assembly", .nested dotnetAssembly)] ++
  Member.each .property ["number_of_modulerefs", "modulerefs", "number_of_assembly_refs"] ++
  [("assembly_refs", .nested dotnetAssemblyRefs)] ++
  Member.each .property ["typelib", "number_of_user_strings", "user_strings",
    "number_of_field_offsets", "field_offsets", "is_dotnet"]

/-- The clock. -/
def time : List (String × Member) :=
  Member.each .method ["now"]

/-- The modules by their names. -/
def modules : List (String × Member) :=
  [("pe", .nested pe), ("elf", .nested elf), ("cuckoo", .nested cuckoo), ("magic", .nested magic),
   ("hash", .nested hash), ("math", .nested math), ("dotnet", .nested dotnet),
   ("time", .nested time)]

end RuleLens.Schema
